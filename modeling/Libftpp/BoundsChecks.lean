import Libftpp.DataBufferFifo
import Libftpp.Memento

/-! The bounds checks of the buffers (`data_buffer.cpp`, `memento.cpp`), for all
amounts and stored lengths. The checks compare a sum of two `size_t`s with the
size of the vector, so what is asked for passes them again where the sum wraps.
A string read consumes its length before it looks at the characters. -/
namespace Libftpp
open Program

namespace DataBuffer

/-- `increaseCursor` throws exactly if the amount exceeds the unread bytes, and
otherwise moves by it. -/
def IncreaseExact (buf : DataBuffer) (amount : UInt64) : Prop :=
  if buf.unread.length < amount.toNat then
    (increaseCursor amount).run buf = .error (.thrown (.outOfRange "Buffer overflow on increaseCursor")) buf
  else
    ∃ after, (increaseCursor amount).run buf = .ok () after ∧ after.buffer = buf.buffer ∧
      after.cursor.toNat = buf.cursor.toNat + amount.toNat

/-- `decreaseCursor` throws exactly if the amount exceeds the cursor, and
otherwise moves back by it. -/
def DecreaseExact (buf : DataBuffer) (amount : UInt64) : Prop :=
  if buf.cursor.toNat < amount.toNat then
    (decreaseCursor amount).run buf = .error (.thrown (.outOfRange "Buffer underflow on decreaseCursor")) buf
  else
    ∃ after, (decreaseCursor amount).run buf = .ok () after ∧ after.buffer = buf.buffer ∧
      after.cursor.toNat = buf.cursor.toNat - amount.toNat

theorem increaseCursor_moves {amount : UInt64} (inside : ¬ buf.cursor + amount > buf.buffer.size) :
    (increaseCursor amount).run buf = .ok () { buf with cursor := buf.cursor + amount } := by
  simp [increaseCursor, inside]

theorem increaseCursor_throws {amount : UInt64} (outside : buf.cursor + amount > buf.buffer.size) :
    (increaseCursor amount).run buf = .error (.thrown (.outOfRange "Buffer overflow on increaseCursor")) buf := by
  simp [increaseCursor, outside]

/-- Where the sum does not wrap, the check is the one that is meant; where it
does, the check passes and the cursor goes back. -/
theorem increaseExact_iff (valid : Valid buf) (amount : UInt64) :
    IncreaseExact buf amount ↔ buf.cursor.toNat + amount.toNat < 2 ^ 64 := by
  have bound := buf.bytes_lt
  have small := amount.toNat_lt
  unfold Valid at valid
  unfold IncreaseExact
  rw [unread_length]
  by_cases wraps : buf.cursor.toNat + amount.toNat < 2 ^ 64
  · have sum : (buf.cursor + amount).toNat = buf.cursor.toNat + amount.toNat := by
      rw [UInt64.toNat_add, Nat.mod_eq_of_lt wraps]
    simp only [wraps, iff_true]
    split
    · refine increaseCursor_throws ?_
      rw [gt_iff_lt, UInt64.lt_iff_toNat_lt, sum, ByteVector.size_toNat]
      omega
    · refine ⟨_, increaseCursor_moves ?_, rfl, sum⟩
      rw [gt_iff_lt, UInt64.lt_iff_toNat_lt, sum, ByteVector.size_toNat]
      omega
  · have sum : (buf.cursor + amount).toNat = buf.cursor.toNat + amount.toNat - 2 ^ 64 := by
      rw [UInt64.toNat_add]
      omega
    have passes : ¬ buf.cursor + amount > buf.buffer.size := by
      rw [gt_iff_lt, UInt64.lt_iff_toNat_lt, sum, ByteVector.size_toNat]
      omega
    have beyond : buf.buffer.bytes.length - buf.cursor.toNat < amount.toNat := by omega
    simpa [beyond, increaseCursor_moves passes] using wraps

theorem decreaseExact (buf : DataBuffer) (amount : UInt64) : DecreaseExact buf amount := by
  unfold DecreaseExact
  split
  · rename_i exceeds
    have refused : amount > buf.cursor := by
      rwa [gt_iff_lt, UInt64.lt_iff_toNat_lt]
    simp [decreaseCursor, refused]
  · rename_i inside
    have moves : ¬ amount > buf.cursor := by
      rwa [gt_iff_lt, UInt64.lt_iff_toNat_lt]
    refine ⟨{ buf with cursor := buf.cursor - amount }, by simp [decreaseCursor, moves], rfl, ?_⟩
    refine UInt64.toNat_sub_of_le _ _ ?_
    rw [UInt64.le_iff_toNat_le]
    omega

/-! ### The exits of a string read -/

variable [Platform]

/-- The length that is stored in front of a string. -/
def storedLength (buf : DataBuffer) : Nat := (decodeSize (buf.unread.take 8)).toNat

theorem readStringOr_short (valid : Valid buf) (short : buf.unread.length < 8) (overflow : Exn) :
    (readStringOr overflow).run buf = .error (.thrown (.outOfRange "Buffer overflow on read")) buf :=
  bind_stops.mpr (Or.inl (read_short valid (by decide) short))

theorem readStringOr_prefixed (valid : Valid buf) (prefixed : 8 ≤ buf.unread.length) (overflow : Exn) :
    (readStringOr overflow).run buf = (assignFrom overflow (decodeSize (buf.unread.take 8))).run (buf.advance 8) := by
  have ran := read_run valid 8 prefixed
  simp only [readStringOr, EStateM.run_bind, ran]
  rfl

theorem readStringOr_whole (valid : Valid buf) (whole : 8 + buf.storedLength ≤ buf.unread.length) (overflow : Exn) :
    (readStringOr overflow).run buf =
      .ok ((buf.unread.drop 8).take buf.storedLength) (buf.advance (8 + buf.storedLength)) := by
  have prefixed : 8 ≤ buf.unread.length := by omega
  have inside := advance_valid valid prefixed
  have rest : buf.storedLength ≤ (buf.advance 8).unread.length := by
    rw [advance_unread valid prefixed, List.length_drop]
    omega
  rw [readStringOr_prefixed valid prefixed, ← advance_advance, ← advance_unread valid prefixed]
  exact assignFrom_returns.mpr (read_run inside _ rest)

/-- The check refuses a length, if the sum does not wrap. -/
theorem readStringOr_beyond (valid : Valid buf) (prefixed : 8 ≤ buf.unread.length)
    (beyond : buf.unread.length < 8 + buf.storedLength) (fits : buf.cursor.toNat + 8 + buf.storedLength < 2 ^ 64)
    (overflow : Exn) : (readStringOr overflow).run buf = .error (.thrown overflow) (buf.advance 8) := by
  have moved := advance_cursor valid prefixed
  have outside : decodeSize (buf.unread.take 8) + (buf.advance 8).cursor > (buf.advance 8).buffer.size := by
    rw [unread_length] at beyond
    unfold storedLength at beyond fits
    rw [gt_iff_lt, UInt64.lt_iff_toNat_lt, UInt64.toNat_add, moved, ByteVector.size_toNat,
      Nat.mod_eq_of_lt (by omega)]
    simp only [advance]
    omega
  rw [readStringOr_prefixed valid prefixed]
  simp [assignFrom, outside]

/-- Where it wraps, the check passes, and the characters are copied from a range
whose end lies before its beginning. -/
theorem readStringOr_wraps (valid : Valid buf) (prefixed : 8 ≤ buf.unread.length)
    (wraps : 2 ^ 64 ≤ buf.cursor.toNat + 8 + buf.storedLength) (overflow : Exn) :
    (readStringOr overflow).run buf = .error .undefined (buf.advance 8) := by
  have moved := advance_cursor valid prefixed
  have inside := advance_valid valid prefixed
  have bound := (buf.advance 8).bytes_lt
  have small := (decodeSize (buf.unread.take 8)).toNat_lt
  unfold Valid at inside
  unfold storedLength at wraps
  have passes : ¬ decodeSize (buf.unread.take 8) + (buf.advance 8).cursor > (buf.advance 8).buffer.size := by
    rw [gt_iff_lt, UInt64.lt_iff_toNat_lt, UInt64.toNat_add, ByteVector.size_toNat]
    omega
  have outside : (buf.advance 8).buffer.bytes.length <
      (buf.advance 8).cursor.toNat + (decodeSize (buf.unread.take 8)).toNat := by omega
  rw [readStringOr_prefixed valid prefixed]
  simp [assignFrom, passes, outside]

/-! ### Exact string reads -/

/-- A string read throws exactly if its eight bytes, or as many as they say
behind them, are not unread, and otherwise gives these and moves past them. -/
def StringExact (readText : Program Exn DataBuffer (List UInt8)) (overflow : Exn) (buf : DataBuffer) : Prop :=
  if buf.unread.length < 8 then
    readText.run buf = .error (.thrown (.outOfRange "Buffer overflow on read")) buf
  else if buf.unread.length < 8 + buf.storedLength then
    ∃ after, readText.run buf = .error (.thrown overflow) after
  else
    ∃ after, readText.run buf = .ok ((buf.unread.drop 8).take buf.storedLength) after ∧ after.buffer = buf.buffer ∧
      after.cursor.toNat = buf.cursor.toNat + 8 + buf.storedLength

/-- The length cannot be read, or the end of the string has a position. -/
def EndFits (buf : DataBuffer) : Prop :=
  buf.unread.length < 8 ∨ buf.cursor.toNat + 8 + buf.storedLength < 2 ^ 64

theorem stringExact_iff (valid : Valid buf) (overflow : Exn) :
    StringExact (readStringOr overflow) overflow buf ↔ EndFits buf := by
  unfold StringExact EndFits
  by_cases short : buf.unread.length < 8
  · simp [short, readStringOr_short valid short]
  · have prefixed : 8 ≤ buf.unread.length := Nat.le_of_not_lt short
    simp only [short, ↓reduceIte, false_or]
    by_cases beyond : buf.unread.length < 8 + buf.storedLength
    · rw [if_pos beyond]
      by_cases fits : buf.cursor.toNat + 8 + buf.storedLength < 2 ^ 64
      · simpa [readStringOr_beyond valid prefixed beyond fits] using fits
      · simpa [readStringOr_wraps valid prefixed (Nat.le_of_not_lt fits)] using fits
    · rw [if_neg beyond]
      have whole : 8 + buf.storedLength ≤ buf.unread.length := Nat.le_of_not_lt beyond
      have moved := advance_cursor valid whole
      have bound := buf.bytes_lt
      have fits : buf.cursor.toNat + 8 + buf.storedLength < 2 ^ 64 := by
        rw [unread_length] at whole
        unfold Valid at valid
        omega
      simp only [fits, iff_true]
      exact ⟨_, readStringOr_whole valid whole overflow, rfl, by rw [moved, Nat.add_assoc]⟩

/-- The checks are exact where their sums do not wrap, and nowhere else. -/
theorem bounds_exact_iff (valid : Valid buf) (amount : UInt64) :
    (IncreaseExact buf amount ↔ buf.cursor.toNat + amount.toNat < 2 ^ 64) ∧ DecreaseExact buf amount ∧
      (StringExact readString (.outOfRange "Buffer overflow on read") buf ↔ EndFits buf) ∧
      (StringExact (Memento.Snapshot.take .text) (.runtimeError "Read out of Buffer !") buf ↔ EndFits buf) :=
  ⟨increaseExact_iff valid amount, decreaseExact buf amount, stringExact_iff valid _, stringExact_iff valid _⟩

end DataBuffer

/-! ### Reads that fail -/

/-- What is read from, and the variable that is read into. -/
structure Reading (σ : Type) where
  source : σ
  value : List UInt8
  deriving DecidableEq

/-- `source >> value`. The variable is assigned when the value is there. -/
def Reading.into {σ : Type} (read : Program Exn σ (List UInt8)) : Program Exn (Reading σ) Unit := do
  let value ← zoom Reading.source (fun reading source => { reading with source }) read
  modify fun reading => { reading with value }

/-- A read that fails throws, and nothing has changed. -/
def ConsumesNothing {σ : Type} (read : Program Exn (Reading σ) Unit) (before : Reading σ) : Prop :=
  ∀ halt after, read.run before = .error halt after → (∃ error, halt = .thrown error) ∧ after = before

/-- The same for the read of a value alone. -/
theorem consumesNothing_into {σ : Type} {read : Program Exn σ (List UInt8)} {source : σ} (value : List UInt8) :
    ConsumesNothing (Reading.into read) ⟨source, value⟩ ↔
      ∀ halt after, read.run source = .error halt after → (∃ error, halt = .thrown error) ∧ after = source := by
  unfold ConsumesNothing Reading.into
  simp only [EStateM.run_bind, run_zoom]
  cases ran : read.run source with
  | ok bytes after => simp
  | error halt after => simp

namespace DataBuffer

theorem advance_ne (valid : Valid buf) (prefixed : 8 ≤ buf.unread.length) : buf.advance 8 ≠ buf := by
  intro same
  have moved := advance_cursor valid prefixed
  rw [same] at moved
  omega

variable [Platform]

/-- `DataBuffer::operator>>` into a variable. -/
def readInto (kind : Kind) : Program Exn (Reading DataBuffer) Unit :=
  Reading.into (readValue (.outOfRange "Buffer overflow on read") kind)

/-- A value of a fixed size; or the length of a string is not there, or all of the string. -/
def Retryable (kind : Kind) (buf : DataBuffer) : Prop :=
  match kind with
  | .fixed _ _ _ => True
  | .text => buf.unread.length < 8 ∨ 8 + buf.storedLength ≤ buf.unread.length

theorem readValue_consumes_nothing_iff (valid : Valid buf) (kind : Kind) (overflow : Exn) :
    (∀ halt after, (readValue overflow kind).run buf = .error halt after →
      (∃ error, halt = .thrown error) ∧ after = buf) ↔ Retryable kind buf := by
  cases kind with
  | fixed width positive bounded =>
    simp only [Retryable, iff_true, readValue]
    intro halt after ran
    by_cases short : buf.unread.length < width.toNat
    · rw [read_short valid bounded short] at ran
      cases ran
      exact ⟨⟨_, rfl⟩, rfl⟩
    · rw [read_run valid width (Nat.le_of_not_lt short)] at ran
      cases ran
  | text =>
    simp only [Retryable, readValue]
    by_cases short : buf.unread.length < 8
    · simp [short, readStringOr_short valid short]
    · have prefixed : 8 ≤ buf.unread.length := Nat.le_of_not_lt short
      by_cases beyond : buf.unread.length < 8 + buf.storedLength
      · have moved := advance_ne valid prefixed
        have incomplete : ¬ 8 + buf.storedLength ≤ buf.unread.length := Nat.not_le_of_lt beyond
        by_cases fits : buf.cursor.toNat + 8 + buf.storedLength < 2 ^ 64
        · simp [short, incomplete, readStringOr_beyond valid prefixed beyond fits, moved]
        · simp [short, incomplete, readStringOr_wraps valid prefixed (Nat.le_of_not_lt fits)]
      · have whole : 8 + buf.storedLength ≤ buf.unread.length := Nat.le_of_not_lt beyond
        simp [whole, readStringOr_whole valid whole]

end DataBuffer

namespace Message

theorem onBuffer_consumes_nothing_iff {read : Program Exn DataBuffer (List UInt8)} (message : Message) :
    (∀ halt after, (onBuffer read).run message = .error halt after →
      (∃ error, halt = .thrown error) ∧ after = message) ↔
      ∀ halt after, read.run message.buffer = .error halt after →
        (∃ error, halt = .thrown error) ∧ after = message.buffer := by
  simp only [onBuffer, run_zoom]
  cases ran : read.run message.buffer with
  | ok bytes after => simp
  | error halt after =>
    have same : { message with buffer := after } = message ↔ after = message.buffer := by simp [Message.ext_iff]
    simp [same]

variable [Platform]

/-- `Message::operator>>` into a variable. -/
def readInto (kind : Kind) : Program Exn (Reading Message) Unit :=
  Reading.into (onBuffer (DataBuffer.readValue (.outOfRange "Buffer overflow on read") kind))

/-- A read that fails leaves everything as it was exactly if it does not fail
between the length of a string and its characters. -/
theorem failed_read_consumes_nothing_iff {message : Message} (valid : message.buffer.Valid) (kind : Kind)
    (value : List UInt8) :
    (ConsumesNothing (DataBuffer.readInto kind) ⟨message.buffer, value⟩ ↔ message.buffer.Retryable kind) ∧
      (ConsumesNothing (readInto kind) ⟨message, value⟩ ↔ message.buffer.Retryable kind) := by
  have alone := DataBuffer.readValue_consumes_nothing_iff valid kind (.outOfRange "Buffer overflow on read")
  constructor
  · exact (consumesNothing_into value).trans alone
  · exact (consumesNothing_into value).trans ((onBuffer_consumes_nothing_iff message).trans alone)

end Message

/-! ### Buffers for which the checks are not what is meant -/

namespace DataBuffer
attribute [local instance] Platform.littleEndian

theorem nine_fit : (0 :: List.replicate 8 255 : List UInt8).length ≤ maxSize := by decide

/-- One byte has been read, and the largest length stands next. -/
def largestLength : DataBuffer := ⟨⟨0 :: List.replicate 8 255, nine_fit⟩, 1⟩

theorem largestLength_valid : largestLength.Valid := by decide

theorem bounds_exact_largestLength :
    (IncreaseExact largestLength 8 ↔ 1 + 8 < 2 ^ 64) ∧ DecreaseExact largestLength 8 ∧
      (StringExact readString (.outOfRange "Buffer overflow on read") largestLength ↔ EndFits largestLength) ∧
      (StringExact (Memento.Snapshot.take .text) (.runtimeError "Read out of Buffer !") largestLength ↔
        EndFits largestLength) :=
  bounds_exact_iff largestLength_valid 8

theorem not_endFits_largestLength : ¬ EndFits largestLength := by
  unfold EndFits
  decide

/-- Asked for all bytes there could be, `increaseCursor` goes back by one, and
the string is copied from nowhere. -/
theorem bounds_wrap :
    largestLength.Valid ∧ ¬ IncreaseExact largestLength (-1) ∧
      ¬ StringExact readString (.outOfRange "Buffer overflow on read") largestLength ∧
      ¬ StringExact (Memento.Snapshot.take .text) (.runtimeError "Read out of Buffer !") largestLength := by
  refine ⟨largestLength_valid, ?_, ?_, ?_⟩
  · rw [increaseExact_iff largestLength_valid]
    decide
  · exact fun exactly => not_endFits_largestLength ((stringExact_iff largestLength_valid _).mp exactly)
  · exact fun exactly => not_endFits_largestLength ((stringExact_iff largestLength_valid _).mp exactly)

theorem eight_fit : (5 :: List.replicate 7 0 : List UInt8).length ≤ maxSize := by decide

/-- The length of a string has arrived, and the string has not. -/
def cutBehindLength : DataBuffer := ⟨⟨5 :: List.replicate 7 0, eight_fit⟩, 0⟩

/-- Eight bytes are gone. -/
theorem failed_read_consumes_length :
    cutBehindLength.Valid ∧ ¬ ConsumesNothing (readInto .text) ⟨cutBehindLength, []⟩ ∧
      (readInto .text).run ⟨cutBehindLength, []⟩ =
        .error (.thrown (.outOfRange "Buffer overflow on read")) ⟨{ cutBehindLength with cursor := 8 }, []⟩ := by
  have ran : (readInto .text).run ⟨cutBehindLength, []⟩ =
      .error (.thrown (.outOfRange "Buffer overflow on read")) ⟨{ cutBehindLength with cursor := 8 }, []⟩ := rfl
  exact ⟨by decide, fun nothing => absurd (nothing _ _ ran).2 (by decide), ran⟩

end DataBuffer

namespace Message
attribute [local instance] Platform.littleEndian

theorem failed_read_consumes_nothing_cut :
    (ConsumesNothing (DataBuffer.readInto .text) ⟨DataBuffer.cutBehindLength, []⟩ ↔
        DataBuffer.cutBehindLength.Retryable .text) ∧
      (ConsumesNothing (readInto .text) ⟨⟨none, 0, DataBuffer.cutBehindLength⟩, []⟩ ↔
        DataBuffer.cutBehindLength.Retryable .text) :=
  @failed_read_consumes_nothing_iff _ ⟨none, 0, DataBuffer.cutBehindLength⟩ (by decide) .text []

end Message
end Libftpp
