import Libftpp.TypedValues

/-! The data buffer as a queue of typed values. Writing appends a value, reading
takes the next one that has not been read, and `reset` starts again from the
first. As long as every read asks for the type that stands next, the buffer
answers every call as the queue does. -/
namespace Libftpp
open Program

/-- A value of a type. -/
structure TypedValue where
  kind : Kind
  bytes : List UInt8
  holds : kind.Holds bytes

/-- The values written, and how many of them have been read since the last
`reset`. -/
structure TypedQueue where
  values : List TypedValue
  position : Nat
  inside : position ≤ values.length

namespace DataBuffer

/-- `DataBuffer::reset`. -/
def reset : Program Exn DataBuffer Unit := modify fun buf => { buf with cursor := 0 }

/-- A call of the buffer. -/
inductive Operation where
  | write (value : TypedValue)
  | read (kind : Kind)
  | reset
  | size
  | data

/-- What a caller gets. -/
inductive Answer where
  | done
  | value (bytes : List UInt8)
  | size (length : UInt64)
  | data (bytes : List UInt8)
  | threw (error : Exn)
  deriving DecidableEq

section Operations
variable [Platform]

/-- `operator>>` for a string. -/
def readString : Program Exn DataBuffer (List UInt8) := readStringOr (.outOfRange "Buffer overflow on read")

def perform : Operation → Program Exn DataBuffer Answer
  | .write value => do
    writeValue value.kind value.bytes
    pure .done
  | .read (.fixed width _ _) => do pure (.value (← read width))
  | .read .text => do pure (.value (← readString))
  | .reset => do
    reset
    pure .done
  | .size => do pure (.size (← get).size)
  | .data => do pure (.data (← data).bytes)

/-- A call whose exception the caller catches. -/
def answered (operation : Operation) : Program Exn DataBuffer Answer := do
  match ← caught (perform operation) with
  | .ok answer => pure answer
  | .error error => pure (.threw error)

/-- Performs calls in turn and collects the answers. -/
def performAll : List Operation → Program Exn DataBuffer (List Answer)
  | [] => pure []
  | operation :: operations => do
    let answer ← answered operation
    let answers ← performAll operations
    pure (answer :: answers)

end Operations
end DataBuffer

namespace TypedQueue
open DataBuffer

def empty : TypedQueue := ⟨[], 0, Nat.le_refl _⟩

/-- The values that have not been read. -/
def unread (queue : TypedQueue) : List TypedValue := queue.values.drop queue.position

/-- The queue with one more value at the end. -/
def add (queue : TypedQueue) (value : TypedValue) : TypedQueue where
  values := queue.values ++ [value]
  position := queue.position
  inside := by
    rw [List.length_append]
    exact Nat.le_add_right_of_le queue.inside

/-- The queue with the next value read. -/
def next (queue : TypedQueue) (more : queue.position < queue.values.length) : TypedQueue :=
  ⟨queue.values, queue.position + 1, more⟩

/-- The queue, to be read from the first value again. -/
def rewind (queue : TypedQueue) : TypedQueue := ⟨queue.values, 0, Nat.zero_le _⟩

variable [Platform]

/-- Values one behind the other in the stream. -/
def encodeAll (values : List TypedValue) : List UInt8 := values.flatMap fun value => value.kind.encode value.bytes

/-- What a call means for the queue. -/
def meaning (queue : TypedQueue) : Operation → Answer × TypedQueue
  | .write value => (.done, queue.add value)
  | .read _ =>
    if more : queue.position < queue.values.length then
      (.value queue.values[queue.position].bytes, queue.next more)
    else (.threw (.outOfRange "Buffer overflow on read"), queue)
  | .reset => (.done, queue.rewind)
  | .size => (.size (UInt64.ofNat (encodeAll queue.unread).length), queue)
  | .data => (.data (encodeAll queue.unread), queue)

/-- The answers to calls in turn. -/
def answers (queue : TypedQueue) : List Operation → List Answer
  | [] => []
  | operation :: operations => (queue.meaning operation).1 :: (queue.meaning operation).2.answers operations

/-- A read asks for the type of the value it gets, if there is one. -/
def Admits (queue : TypedQueue) : Operation → Prop
  | .read kind => ∀ value ∈ queue.unread.head?, value.kind = kind
  | _ => True

instance (queue : TypedQueue) (operation : Operation) : Decidable (queue.Admits operation) :=
  match operation with
  | .read kind => inferInstanceAs (Decidable (∀ value ∈ queue.unread.head?, value.kind = kind))
  | .write _ | .reset | .size | .data => isTrue trivial

/-- Every read of the run asks for the type of the value it gets. -/
def WellTyped (queue : TypedQueue) : List Operation → Prop
  | [] => True
  | operation :: operations => queue.Admits operation ∧ (queue.meaning operation).2.WellTyped operations

instance wellTyped_decidable (queue : TypedQueue) :
    (operations : List Operation) → Decidable (queue.WellTyped operations)
  | [] => isTrue trivial
  | operation :: operations =>
    have := wellTyped_decidable (queue.meaning operation).2 operations
    inferInstanceAs (Decidable (_ ∧ _))

end TypedQueue

namespace DataBuffer
open TypedQueue

/-- The value a call writes. -/
def Operation.written : Operation → Option TypedValue
  | .write value => some value
  | _ => none

section Answers
variable [Platform]

/-- The buffer holds the values of the queue, and its cursor stands before those
that have not been read. -/
structure Represents (queue : TypedQueue) (buf : DataBuffer) : Prop where
  valid : buf.Valid
  values : buf.buffer.bytes = encodeAll queue.values
  unread : buf.unread = encodeAll queue.unread

theorem represents_empty : Represents .empty .empty := ⟨empty_valid, rfl, rfl⟩

theorem answered_value {operation : Operation} (ran : (perform operation).run buf = .ok answer after) :
    (answered operation).run buf = .ok answer after :=
  bind_returns.mpr ⟨.ok answer, after, caught_value ran, rfl⟩

theorem answered_error {operation : Operation} (ran : (perform operation).run buf = .error (.thrown error) after) :
    (answered operation).run buf = .ok (.threw error) after :=
  bind_returns.mpr ⟨.error error, after, caught_error ran, rfl⟩

theorem perform_read (kind : Kind) :
    perform (.read kind) =
      (do pure (.value (← readValue (.outOfRange "Buffer overflow on read") kind))) := by
  cases kind <;> rfl

theorem write_answers (represents : Represents queue buf) (value : TypedValue)
    (fits : (encodeAll (queue.values ++ [value])).length ≤ maxSize) :
    ∃ after, (answered (.write value)).run buf = .ok .done after ∧ Represents (queue.add value) after := by
  have encoded : encodeAll (queue.values ++ [value]) = buf.buffer.bytes ++ value.kind.encode value.bytes := by
    simp [encodeAll, represents.values]
  rw [encoded, List.length_append] at fits
  obtain ⟨after, ran⟩ := writeValue_run fits
  obtain ⟨whole, same⟩ := writeValue_returns ran
  have valid := represents.valid
  unfold Valid at valid
  refine ⟨after, answered_value (bind_returns.mpr ⟨(), after, ran, rfl⟩), ?_, ?_, ?_⟩
  · unfold Valid
    rw [whole, same, List.length_append]
    exact Nat.le_add_right_of_le valid
  · rw [whole]
    exact encoded.symm
  · have behind : after.unread = buf.unread ++ value.kind.encode value.bytes := by
      rw [unread, whole, same, List.drop_append_of_le_length valid, unread]
    rw [behind, represents.unread]
    simp [encodeAll, TypedQueue.unread, add, List.drop_append_of_le_length queue.inside]

theorem read_answers (represents : Represents queue buf) (kind : Kind) (admits : queue.Admits (.read kind)) :
    ∃ after, (answered (.read kind)).run buf = .ok (queue.meaning (.read kind)).1 after ∧
      Represents (queue.meaning (.read kind)).2 after := by
  by_cases more : queue.position < queue.values.length
  · have rest : queue.unread = queue.values[queue.position] :: (queue.next more).unread :=
      List.drop_eq_getElem_cons more
    have asked : queue.values[queue.position].kind = kind := admits _ (by rw [rest]; rfl)
    have front := represents.unread
    rw [rest, encodeAll, List.flatMap_cons, asked] at front
    have holds := queue.values[queue.position].holds
    rw [asked] at holds
    obtain ⟨after, ran, valid, behind, same⟩ :=
      readValue_run (.outOfRange "Buffer overflow on read") represents.valid holds front
    simp only [meaning, dif_pos more]
    refine ⟨after, answered_value ?_, valid, ?_, behind⟩
    · rw [perform_read]
      exact bind_returns.mpr ⟨_, after, ran, rfl⟩
    · rw [same]
      exact represents.values
  · have none : queue.unread = [] := List.drop_eq_nil_of_le (Nat.le_of_not_lt more)
    have empty := represents.unread
    rw [none] at empty
    simp only [meaning, dif_neg more]
    refine ⟨buf, answered_error ?_, represents⟩
    rw [perform_read]
    exact bind_stops.mpr (Or.inl (readValue_empty kind represents.valid empty _))

theorem reset_answers (represents : Represents queue buf) :
    ∃ after, (answered .reset).run buf = .ok .done after ∧ Represents queue.rewind after := by
  refine ⟨{ buf with cursor := 0 }, answered_value rfl, Nat.zero_le _, represents.values, ?_⟩
  exact represents.values

/-- Every call answers as the queue does. -/
theorem answered_answers (represents : Represents queue buf) (operation : Operation)
    (admits : queue.Admits operation)
    (fits : (encodeAll (queue.values ++ operation.written.toList)).length ≤ maxSize) :
    ∃ after, (answered operation).run buf = .ok (queue.meaning operation).1 after ∧
      Represents (queue.meaning operation).2 after := by
  cases operation with
  | write value => exact write_answers represents value fits
  | read kind => exact read_answers represents kind admits
  | reset => exact reset_answers represents
  | size =>
    have length : buf.size = UInt64.ofNat (encodeAll queue.unread).length := by
      rw [← represents.unread, ← size_toNat represents.valid, UInt64.ofNat_toNat]
    refine ⟨buf, ?_, represents⟩
    rw [meaning, ← length]
    exact answered_value rfl
  | data =>
    refine ⟨buf, answered_value (bind_returns.mpr ⟨_, buf, data_run represents.valid, ?_⟩), represents⟩
    rw [meaning, ← represents.unread]
    rfl

theorem meaning_values (queue : TypedQueue) (operation : Operation) :
    (queue.meaning operation).2.values = queue.values ++ operation.written.toList := by
  cases operation with
  | write value => rfl
  | read kind =>
    rw [meaning]
    split <;> exact (List.append_nil _).symm
  | reset | size | data => exact (List.append_nil _).symm

theorem performAll_answers (represents : Represents queue buf) (operations : List Operation)
    (typed : queue.WellTyped operations)
    (fits : (encodeAll (queue.values ++ operations.filterMap Operation.written)).length ≤ maxSize) :
    ∃ after, (performAll operations).run buf = .ok (queue.answers operations) after := by
  induction operations generalizing queue buf with
  | nil => exact ⟨buf, rfl⟩
  | cons operation operations ih =>
    have shape : queue.values ++ (operation :: operations).filterMap Operation.written =
        (queue.meaning operation).2.values ++ operations.filterMap Operation.written := by
      rw [meaning_values]
      cases written : operation.written <;> simp [written]
    rw [shape] at fits
    have sofar : (encodeAll (queue.values ++ operation.written.toList)).length ≤ maxSize := by
      rw [← meaning_values]
      rw [encodeAll, List.flatMap_append, List.length_append] at fits
      exact Nat.le_of_add_right_le fits
    obtain ⟨middle, answer, next⟩ := answered_answers represents operation typed.1 sofar
    obtain ⟨after, ran⟩ := ih next typed.2 fits
    exact ⟨after, bind_returns.mpr ⟨_, middle, answer, bind_returns.mpr ⟨_, after, ran, rfl⟩⟩⟩

/-- Whatever is written, read, reset and asked for on a new buffer, in any order:
as long as every read that finds a value asks for its type, and everything
written fits into 2^63 - 1 bytes, each read returns the value at its position or
throws when all have been read, and the size is that of the values not read. -/
theorem answers_as_typed_queue (operations : List Operation) (typed : TypedQueue.empty.WellTyped operations)
    (fits : (encodeAll (operations.filterMap Operation.written)).length ≤ maxSize) :
    ∃ after, (performAll operations).run .empty = .ok (TypedQueue.empty.answers operations) after :=
  performAll_answers represents_empty operations typed fits

end Answers

attribute [local instance] Platform.littleEndian

/-- An `int`, an empty string and one with the bytes 0 and 255, read twice and
once too often. -/
def mixedOperations : List Operation :=
  [.write ⟨.fixed 4 (by decide) (by decide), [42, 0, 0, 0], rfl⟩, .write ⟨.text, [], by decide⟩,
    .read (.fixed 4 (by decide) (by decide)), .write ⟨.text, [0, 255, 10], by decide⟩, .size, .read .text, .reset,
    .read (.fixed 4 (by decide) (by decide)), .read .text, .read .text, .size, .read .text]

theorem answers_as_typed_queue_mixed : ∃ after, (performAll mixedOperations).run .empty =
    .ok [.done, .done, .value [42, 0, 0, 0], .done, .size 19, .value [], .done, .value [42, 0, 0, 0], .value [],
      .value [0, 255, 10], .size 0, .threw (.outOfRange "Buffer overflow on read")] after :=
  answers_as_typed_queue mixedOperations (by decide) (by decide)

end DataBuffer
end Libftpp
