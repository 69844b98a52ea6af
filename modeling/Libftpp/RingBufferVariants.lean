import Libftpp.RingBuffer

/-! The variants of one operation of the ring buffer (`ring_buffer.cpp`): a vector,
a string, a pointer and single bytes to push, and three ways to read many bytes
beside single ones. Each has a guard of its own. They agree but for nothing at
all: some guards refuse to push nothing to a full buffer, or to look at nothing
in an empty one, and the others do not. -/
namespace Libftpp
open Program

namespace RingBuffer

/-- So many calls of `pop()`. -/
def popEach : Nat → Program Exn RingBuffer (List UInt8)
  | 0 => pure []
  | remaining + 1 => do
    let byte ← pop
    let rest ← popEach remaining
    pure (byte :: rest)

/-- A state after calls of the buffer's user, who catches what they throw. -/
def Reachable (ring : RingBuffer) : Prop :=
  ∃ size_buffer fits operations answers,
    (performAll operations).run (new size_buffer fits) = .ok answers ring

/-- An exception, and nothing has changed. -/
def Throws {α : Type} (program : Program Exn RingBuffer α) (ring : RingBuffer) : Prop :=
  ∃ error, program.run ring = .error (.thrown error) ring

/-- All ways to push these bytes return, with the same state, or none does; only
single pushes leave something behind then. -/
def PushesAgree (ring : RingBuffer) (bytes : ByteVector) : Prop :=
  (∃ after, (pushVector bytes).run ring = .ok () after ∧ (pushString bytes).run ring = .ok () after ∧
    (pushInto bytes.bytes bytes.size).run ring = .ok () after ∧ (bytes.bytes.forM push).run ring = .ok () after) ∨
  (Throws (pushVector bytes) ring ∧ Throws (pushString bytes) ring ∧ Throws (pushInto bytes.bytes bytes.size) ring ∧
    ∃ error after, (bytes.bytes.forM push).run ring = .error (.thrown error) after)

/-- All ways to read as many bytes as this reference says yield the same, `popInto`
at the beginning of its memory, and those that take them out leave the same
state; or all throw. -/
def ReadsAgree (ring : RingBuffer) (size : List UInt8 → UInt64) (data : List UInt8) : Prop :=
  (∃ bytes after, bytes.length = (size data).toNat ∧ (popMany (size data)).run ring = .ok bytes after ∧
    (popInto data size).run ring = .ok (bytes ++ data.drop (size data).toNat) after ∧
    (peekMany (size data)).run ring = .ok bytes ring ∧ (popEach (size data).toNat).run ring = .ok bytes after) ∨
  (Throws (popMany (size data)) ring ∧ Throws (popInto data size) ring ∧ Throws (peekMany (size data)) ring ∧
    ∃ error after, (popEach (size data).toNat).run ring = .error (.thrown error) after)

section Variants
variable {capacity : Nat} {queue : BoundedQueue UInt8 capacity} {ring : RingBuffer}

theorem throws_of_outOfRange {α : Type} {program : Program Exn RingBuffer α}
    (threw : ∃ what, program.run ring = .error (.thrown (.outOfRange what)) ring) : Throws program ring := by
  obtain ⟨what, threw⟩ := threw
  exact ⟨_, threw⟩

theorem not_throws_of_returns {α : Type} {program : Program Exn RingBuffer α} {value : α}
    (ran : program.run ring = .ok value after) : ¬ Throws program ring := by
  rintro ⟨error, threw⟩
  rw [ran] at threw
  cases threw

/-! ### Single calls in a row -/

/-- Where there is room, `push` is a round of the loops that write. -/
theorem push_appends (represents : Represents queue ring) (byte : UInt8) (room : queue.items.length ≠ capacity) :
    ∃ (grown : BoundedQueue UInt8 capacity) (middle : RingBuffer), grown.items = queue.items ++ [byte] ∧
      Represents grown middle ∧ (push byte).run ring = .ok () middle ∧ (writeByte byte).run ring = .ok () middle := by
  have fits := queue.fits
  let grown : BoundedQueue UInt8 capacity := ⟨queue.items ++ [byte], by simp; omega⟩
  obtain ⟨middle, wrote, reached⟩ := @writeByte_returns _ _ _ grown byte represents rfl
  exact ⟨grown, middle, rfl, reached, ((push_writes represents byte).2 room).trans wrote, wrote⟩

/-- Where there is a byte, `pop` is a round of the loops that read. -/
theorem pop_removes {byte : UInt8} {rest : List UInt8} (represents : Represents queue ring)
    (items : queue.items = byte :: rest) :
    ∃ (left : BoundedQueue UInt8 capacity) (middle : RingBuffer), left.items = rest ∧
      Represents left middle ∧ pop.run ring = .ok byte middle ∧ readByte.run ring = .ok byte middle := by
  have fits := queue.fits
  rw [items, List.length_cons] at fits
  let left : BoundedQueue UInt8 capacity := ⟨rest, by omega⟩
  obtain ⟨middle, read, reached⟩ := @readByte_returns _ _ _ left _ represents items
  have filled : queue.items ≠ [] := by
    rw [items]
    exact List.cons_ne_nil _ _
  exact ⟨left, middle, rfl, reached, ((pop_reads represents).2 filled).trans read, read⟩

theorem forM_push_returns {bytes : List UInt8} (represents : Represents queue ring)
    (fits : queue.items.length + bytes.length ≤ capacity) :
    (bytes.forM push).run ring = (bytes.forM writeByte).run ring := by
  induction bytes generalizing queue ring with
  | nil => rfl
  | cons byte bytes ih =>
    rw [List.length_cons] at fits
    obtain ⟨grown, middle, items, reached, pushed, wrote⟩ := push_appends represents byte (by omega)
    change (push byte >>= fun _ => bytes.forM push).run ring = (writeByte byte >>= fun _ => bytes.forM writeByte).run ring
    rw [EStateM.run_bind, EStateM.run_bind, pushed, wrote]
    exact ih reached (by simp [items]; omega)

theorem forM_push_throws {bytes : List UInt8} (represents : Represents queue ring)
    (overfull : capacity < queue.items.length + bytes.length) :
    ∃ error after, (bytes.forM push).run ring = .error (.thrown error) after := by
  induction bytes generalizing queue ring with
  | nil => exact absurd queue.fits (Nat.not_le_of_lt overfull)
  | cons byte bytes ih =>
    rw [List.length_cons] at overfull
    by_cases full : queue.items.length = capacity
    · obtain ⟨what, threw⟩ := (push_writes represents byte).1 full
      exact ⟨_, ring, bind_stops.mpr (Or.inl threw)⟩
    · obtain ⟨grown, middle, items, reached, pushed, _⟩ := push_appends represents byte full
      obtain ⟨error, after, threw⟩ := ih reached (by simp [items]; omega)
      exact ⟨error, after, bind_stops.mpr (Or.inr ⟨(), middle, pushed, threw⟩)⟩

theorem popEach_returns {count : Nat} (represents : Represents queue ring) (enough : count ≤ queue.items.length) :
    (popEach count).run ring = (readBytes count).run ring := by
  induction count generalizing queue ring with
  | zero => rfl
  | succ count ih =>
    obtain ⟨byte, rest, items⟩ := List.exists_cons_of_length_pos (Nat.zero_lt_of_lt enough)
    obtain ⟨left, middle, behind, reached, popped, read⟩ := pop_removes represents items
    rw [items, List.length_cons] at enough
    rw [popEach, readBytes, EStateM.run_bind, EStateM.run_bind, popped, read]
    simp only [EStateM.run_bind]
    rw [ih reached (by rw [behind]; exact Nat.le_of_succ_le_succ enough)]

theorem popEach_throws {count : Nat} (represents : Represents queue ring) (short : queue.items.length < count) :
    ∃ error after, (popEach count).run ring = .error (.thrown error) after := by
  induction count generalizing queue ring with
  | zero => exact absurd short (Nat.not_lt_zero _)
  | succ count ih =>
    cases items : queue.items with
    | nil =>
      obtain ⟨what, threw⟩ := (pop_reads represents).1 items
      exact ⟨_, ring, bind_stops.mpr (Or.inl threw)⟩
    | cons byte rest =>
      obtain ⟨left, middle, behind, reached, popped, _⟩ := pop_removes represents items
      rw [items, List.length_cons] at short
      obtain ⟨error, after, threw⟩ := ih reached (by rw [behind]; exact Nat.lt_of_succ_lt_succ short)
      exact ⟨error, after, bind_stops.mpr (Or.inr ⟨byte, middle, popped, bind_stops.mpr (Or.inl threw)⟩)⟩

/-! ### Where the variants agree -/

/-- A full buffer refuses an empty vector, and takes the nothing behind a pointer. -/
theorem pushes_nothing {bytes : ByteVector} (represents : Represents queue ring)
    (full : queue.items.length = capacity) (nothing : bytes.bytes = []) : ¬ PushesAgree ring bytes := by
  have size : bytes.size.toNat = 0 := by rw [bytes.size_toNat, nothing, List.length_nil]
  have taken : (pushInto bytes.bytes bytes.size).run ring = .ok () ring := by
    rw [(pushInto_writes represents (by omega)).2 (by omega), size]
    rfl
  obtain ⟨what, refused⟩ := (pushString_writes represents bytes).1 full
  rintro (⟨after, -, returned, -⟩ | ⟨-, -, threw, -⟩)
  · rw [refused] at returned
    cases returned
  · exact not_throws_of_returns taken threw

/-- An empty buffer does not show nothing, but hands it out. -/
theorem reads_nothing {data : List UInt8} (represents : Represents queue ring) (empty : queue.items = []) :
    ¬ ReadsAgree ring (fun _ => 0) data := by
  have handed : (popMany 0).run ring = .ok [] ring := (popMany_reads represents 0).2 (Nat.zero_le _)
  obtain ⟨what, refused⟩ := (peekMany_looks represents 0).1 (Or.inl empty)
  rintro (⟨bytes, _, -, -, -, looked, -⟩ | ⟨threw, -⟩)
  · rw [refused] at looked
    cases looked
  · exact not_throws_of_returns handed threw

theorem pushesAgree_iff (represents : Represents queue ring) (bytes : ByteVector) :
    PushesAgree ring bytes ↔ bytes.bytes ≠ [] ∨ ring.isFull = false := by
  have fits := queue.fits
  have size := bytes.size_toNat
  obtain ⟨tooMany, writes⟩ := pushVector_writes represents bytes
  obtain ⟨refuses, passes⟩ := pushString_writes represents bytes
  obtain ⟨tooManyInto, writesInto⟩ := pushInto_writes represents (Nat.le_of_eq size)
  rw [size] at tooManyInto writesInto
  rw [List.take_length] at writesInto
  rw [← Bool.not_eq_true, represents.isFull]
  by_cases room : queue.items.length + bytes.bytes.length ≤ capacity
  · by_cases full : queue.items.length = capacity
    · have nothing : bytes.bytes = [] := List.length_eq_zero_iff.mp (by omega)
      simp only [nothing, full, ne_eq, not_true_eq_false, or_self, iff_false]
      exact pushes_nothing represents full nothing
    · have vector := writes full room
      obtain ⟨after, ran, _⟩ := @writeBytes_returns _ _ _
        ⟨queue.items ++ bytes.bytes, by rwa [List.length_append]⟩ bytes.bytes represents rfl
      simp only [full, not_false_eq_true, or_true, iff_true]
      exact Or.inl ⟨after, vector.trans ran, ((passes full).trans vector).trans ran, (writesInto room).trans ran,
        (forM_push_returns represents room).trans ran⟩
  · have overfull : capacity < queue.items.length + bytes.bytes.length := Nat.lt_of_not_le room
    have some : bytes.bytes ≠ [] := by
      rintro none
      rw [none, List.length_nil] at overfull
      omega
    have string : Throws (pushString bytes) ring := by
      by_cases full : queue.items.length = capacity
      · exact throws_of_outOfRange (refuses full)
      · exact throws_of_outOfRange ((passes full).symm ▸ tooMany overfull)
    simp only [some, ne_eq, not_false_eq_true, true_or, iff_true]
    exact Or.inr ⟨throws_of_outOfRange (tooMany overfull), string, throws_of_outOfRange (tooManyInto overfull),
      forM_push_throws represents overfull⟩

theorem readsAgree_iff (represents : Represents queue ring) {size : UInt64} {data : List UInt8}
    (writable : size.toNat ≤ data.length) :
    ReadsAgree ring (fun _ => size) data ↔ size ≠ 0 ∨ ring.isEmpty = false := by
  obtain ⟨tooMany, reads⟩ := popMany_reads represents size
  obtain ⟨tooManyInto, readsInto⟩ := popInto_reads represents writable
  obtain ⟨refuses, looks⟩ := peekMany_looks represents size
  rw [← Bool.not_eq_true, represents.isEmpty]
  by_cases enough : size.toNat ≤ queue.items.length
  · obtain ⟨after, ran, _⟩ := @readBytes_returns _ _ _ (queue.drop size.toNat) (queue.items.take size.toNat)
      represents (List.take_append_drop ..).symm
    have length : (queue.items.take size.toNat).length = size.toNat := by rw [List.length_take, Nat.min_eq_left enough]
    rw [length] at ran
    by_cases empty : queue.items = []
    · have zero : size = 0 := by
        rw [empty, List.length_nil] at enough
        exact UInt64.toNat_inj.mp (by rw [UInt64.toNat_zero]; omega)
      subst zero
      simp only [empty, ne_eq, not_true_eq_false, or_self, iff_false]
      exact reads_nothing represents empty
    · simp only [empty, not_false_eq_true, or_true, iff_true]
      exact Or.inl ⟨_, after, length, (reads enough).trans ran, readsInto _ after enough ran, looks empty enough,
        (popEach_returns represents enough).trans ran⟩
  · have short : queue.items.length < size.toNat := Nat.lt_of_not_le enough
    have some : size ≠ 0 := by
      rintro rfl
      simp at short
    simp only [some, ne_eq, not_false_eq_true, true_or, iff_true]
    exact Or.inr ⟨throws_of_outOfRange (tooMany short), throws_of_outOfRange (tooManyInto short),
      throws_of_outOfRange (refuses (Or.inr short)), popEach_throws represents short⟩

theorem represented (reachable : Reachable ring) :
    ∃ (capacity : Nat) (queue : BoundedQueue UInt8 capacity), Represents queue ring := by
  obtain ⟨size_buffer, fits, operations, answers, ran⟩ := reachable
  obtain ⟨after, returned, represents⟩ := refines_bounded_queue size_buffer fits operations
  rw [ran] at returned
  cases returned
  exact ⟨_, _, represents⟩

/-- In every state a ring buffer can be in, the ways to push some bytes agree
unless there are none and the buffer is full, and the ways to read so many bytes
agree unless none are asked for and the buffer is empty. The length given to
`popInto` does not lie in the memory it writes to. -/
theorem variants_agree_iff (reachable : Reachable ring) (bytes : ByteVector) (size : List UInt8 → UInt64)
    (data : List UInt8) (writable : (size data).toNat ≤ data.length) (apart : ∀ memory, size memory = size data) :
    (PushesAgree ring bytes ↔ bytes.bytes ≠ [] ∨ ring.isFull = false) ∧
      (ReadsAgree ring size data ↔ size data ≠ 0 ∨ ring.isEmpty = false) := by
  obtain ⟨capacity, queue, represents⟩ := represented reachable
  have fixed : size = fun _ => size data := funext apart
  refine ⟨pushesAgree_iff represents bytes, ?_⟩
  rw [fixed]
  exact readsAgree_iff represents writable

end Variants

/-- A buffer of one byte, before and after a byte is pushed. -/
def oneByte : RingBuffer := new 1 (by decide)

def oneByteFull : RingBuffer where
  buffer := ⟨[7], by decide⟩
  head := 0
  tail := 0
  size := 1

theorem oneByte_reachable : Reachable oneByte := ⟨1, by decide, [], [], rfl⟩

theorem oneByteFull_reachable : Reachable oneByteFull := ⟨1, by decide, [.push 7], [some []], rfl⟩

theorem variants_agree_iff_oneByte :
    (PushesAgree oneByteFull ⟨[8, 9], by decide⟩ ↔ [8, 9] ≠ ([] : List UInt8) ∨ oneByteFull.isFull = false) ∧
      (ReadsAgree oneByteFull (fun _ => 1) [0, 0] ↔ (1 : UInt64) ≠ 0 ∨ oneByteFull.isEmpty = false) :=
  variants_agree_iff oneByteFull_reachable ⟨[8, 9], by decide⟩ (fun _ => 1) [0, 0] (by decide) fun _ => rfl

/-- Nothing to push to a full buffer, nothing to read from an empty one: some
variants throw, and the others return. -/
theorem variants_disagree :
    Reachable oneByteFull ∧ Throws (pushVector ⟨[], by decide⟩) oneByteFull ∧
      (pushInto [] 0).run oneByteFull = .ok () oneByteFull ∧ ¬ PushesAgree oneByteFull ⟨[], by decide⟩ ∧
      Reachable oneByte ∧ Throws (peekMany 0) oneByte ∧ (popMany 0).run oneByte = .ok [] oneByte ∧
      ¬ ReadsAgree oneByte (fun _ => 0) [] := by
  have full : Throws (pushVector ⟨[], by decide⟩) oneByteFull := ⟨_, rfl⟩
  have empty : Throws (peekMany 0) oneByte := ⟨_, rfl⟩
  have pushed : (pushInto [] 0).run oneByteFull = .ok () oneByteFull := rfl
  have popped : (popMany 0).run oneByte = .ok [] oneByte := rfl
  refine ⟨oneByteFull_reachable, full, pushed, ?_, oneByte_reachable, empty, popped, ?_⟩
  · rintro (⟨_, returned, -⟩ | ⟨-, -, threw, -⟩)
    · exact not_throws_of_returns returned full
    · exact not_throws_of_returns pushed threw
  · rintro (⟨_, _, -, -, -, looked, -⟩ | ⟨threw, -⟩)
    · exact not_throws_of_returns looked empty
    · exact not_throws_of_returns popped threw

end RingBuffer
end Libftpp
