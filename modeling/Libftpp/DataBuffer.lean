import Mathlib.Data.List.Basic
import Libftpp.ByteCodec
import Libftpp.Program

/-! The byte buffer every message is kept in (`data_buffer.hpp`,
`data_buffer.cpp`): a growing vector of bytes and a read cursor that moves over
it. Nothing is removed by reading; `clear` alone empties the vector. Sizes and
cursors are `size_t`, so their sums wrap at 2^64 exactly as in the source. -/
namespace Libftpp
open ByteCodec Program

/-- What the code takes from the machine: the byte order of `int` (four bytes)
and `size_t` (eight bytes), and the texts of `strerror`. -/
class Platform where
  order : ByteOrder
  strerror : Int → String

/-- A little-endian machine that calls every error by one name. -/
@[reducible] def Platform.littleEndian : Platform := ⟨.little, fun _ => "error"⟩

/-- The exceptions the modelled code throws or lets through, with their text. -/
inductive Exn where
  | outOfRange (what : String)
  | lengthError
  | runtimeError (what : String)
  | fromAction (what : String)
  deriving DecidableEq, Repr

/-- `max_size()` of a vector of bytes: the largest `ptrdiff_t`. -/
def maxSize : Nat := 2 ^ 63 - 1

/-- `std::vector<unsigned char>`. -/
@[ext] structure ByteVector where
  bytes : List UInt8
  fits : bytes.length ≤ maxSize
  deriving DecidableEq

namespace ByteVector

def empty : ByteVector := ⟨[], Nat.zero_le _⟩

def size (vector : ByteVector) : UInt64 := UInt64.ofNat vector.bytes.length

/-- `insert(end(), first, last)`: grows by these bytes, or not at all. -/
def insertEnd (vector : ByteVector) (bytes : List UInt8) : Option ByteVector :=
  if fits : (vector.bytes ++ bytes).length ≤ maxSize then some ⟨vector.bytes ++ bytes, fits⟩ else none

/-- `data()`: the memory readable behind the pointer; the library hands out a
null pointer for an empty vector. -/
def data (vector : ByteVector) : Option (List UInt8) :=
  if vector.bytes = [] then none else some vector.bytes

@[simp] theorem bytes_empty : empty.bytes = [] := rfl

@[simp] theorem size_toNat (vector : ByteVector) : vector.size.toNat = vector.bytes.length := by
  have fits := vector.fits
  unfold maxSize at fits
  exact UInt64.toNat_ofNat_of_lt' (by simp [UInt64.size]; omega)

theorem insertEnd_fits (vector : ByteVector) {bytes : List UInt8}
    (fits : vector.bytes.length + bytes.length ≤ maxSize) :
    ∃ grown, vector.insertEnd bytes = some grown ∧ grown.bytes = vector.bytes ++ bytes := by
  have bound : (vector.bytes ++ bytes).length ≤ maxSize := by simpa using fits
  exact ⟨⟨vector.bytes ++ bytes, bound⟩, dif_pos bound, rfl⟩

end ByteVector

/-- `class DataBuffer`. -/
@[ext] structure DataBuffer where
  buffer : ByteVector
  cursor : UInt64
  deriving DecidableEq

namespace DataBuffer

/-- `DataBuffer::DataBuffer`. -/
def empty : DataBuffer := ⟨.empty, 0⟩

/-- The bytes from the cursor on. -/
def unread (buf : DataBuffer) : List UInt8 := buf.buffer.bytes.drop buf.cursor.toNat

/-- `DataBuffer::size`. -/
def size (buf : DataBuffer) : UInt64 := buf.buffer.size - buf.cursor

/-- The unread bytes as a vector of their own. -/
def unreadVector (buf : DataBuffer) : ByteVector where
  bytes := buf.unread
  fits := by
    rw [unread, List.length_drop]
    exact Nat.le_trans (Nat.sub_le _ _) buf.buffer.fits

/-- `DataBuffer::data`: a copy of the range from the cursor to the end, which
is no range when the cursor is past the end. -/
def data : Program Exn DataBuffer ByteVector := do
  let buf ← get
  if buf.cursor ≤ buf.buffer.size then pure buf.unreadVector else undefinedBehaviour

/-- `_buffer.insert(_buffer.end(), ...)`. -/
def insertEnd (bytes : List UInt8) : Program Exn DataBuffer Unit := fun buf =>
  match buf.buffer.insertEnd bytes with
  | some grown => .ok () { buf with buffer := grown }
  | none => .error (.thrown .lengthError) buf

/-- `DataBuffer::append`. The pointer argument is the memory readable behind
it; copying more than that has no meaning. -/
def append (data : Option (List UInt8)) (len : UInt64) : Program Exn DataBuffer Unit :=
  match data with
  | none => pure ()
  | some readable =>
    if len = 0 then pure ()
    else if readable.length < len.toNat then undefinedBehaviour
    else insertEnd (readable.take len.toNat)

/-- `DataBuffer::operator<<` for a trivially copyable value, given as its bytes. -/
def write (bytes : List UInt8) : Program Exn DataBuffer Unit := insertEnd bytes

/-- `DataBuffer::operator>>` for a trivially copyable type of this width. -/
def read (width : UInt64) : Program Exn DataBuffer (List UInt8) := do
  let buf ← get
  if width + buf.cursor > buf.buffer.size then raise (.outOfRange "Buffer overflow on read")
  else if buf.buffer.bytes.length < buf.cursor.toNat + width.toNat then undefinedBehaviour
  else do
    set { buf with cursor := buf.cursor + width }
    pure (buf.unread.take width.toNat)

/-- `DataBuffer::increaseCursor`. -/
def increaseCursor (amount : UInt64) : Program Exn DataBuffer Unit := do
  let buf ← get
  if buf.cursor + amount > buf.buffer.size then
    raise (.outOfRange "Buffer overflow on increaseCursor")
  else set { buf with cursor := buf.cursor + amount }

/-- `DataBuffer::decreaseCursor`. -/
def decreaseCursor (amount : UInt64) : Program Exn DataBuffer Unit := do
  let buf ← get
  if amount > buf.cursor then raise (.outOfRange "Buffer underflow on decreaseCursor")
  else set { buf with cursor := buf.cursor - amount }

/-- `DataBuffer::clear`. -/
def clear : Program Exn DataBuffer Unit := set (⟨.empty, 0⟩ : DataBuffer)

/-! ### What each operation does while the cursor is inside the vector -/

/-- The cursor has not passed the end of the vector. -/
def Valid (buf : DataBuffer) : Prop := buf.cursor.toNat ≤ buf.buffer.bytes.length

instance (buf : DataBuffer) : Decidable buf.Valid := inferInstanceAs (Decidable (_ ≤ _))

/-- The buffer after `count` more bytes have been read. -/
def advance (buf : DataBuffer) (count : Nat) : DataBuffer :=
  { buf with cursor := buf.cursor + UInt64.ofNat count }

@[simp] theorem empty_unread : empty.unread = [] := rfl

@[simp] theorem empty_valid : empty.Valid := Nat.zero_le _

theorem unread_length (buf : DataBuffer) :
    buf.unread.length = buf.buffer.bytes.length - buf.cursor.toNat := by
  simp [unread]

theorem bytes_lt (buf : DataBuffer) : buf.buffer.bytes.length < 2 ^ 63 := by
  have fits := buf.buffer.fits
  unfold maxSize at fits
  omega

theorem unread_lt (buf : DataBuffer) : buf.unread.length < 2 ^ 63 := by
  have bound := buf.bytes_lt
  rw [unread_length]
  omega

theorem size_toNat (valid : Valid buf) : buf.size.toNat = buf.unread.length := by
  have inside : buf.cursor ≤ buf.buffer.size := by
    rw [UInt64.le_iff_toNat_le, ByteVector.size_toNat]
    exact valid
  rw [size, UInt64.toNat_sub_of_le _ _ inside, ByteVector.size_toNat, unread_length]

theorem advance_cursor (valid : Valid buf) (inside : count ≤ buf.unread.length) :
    (buf.advance count).cursor.toNat = buf.cursor.toNat + count := by
  have bound := buf.bytes_lt
  rw [unread_length] at inside
  unfold Valid at valid
  simp only [advance, UInt64.toNat_add, UInt64.toNat_ofNat']
  omega

theorem advance_valid (valid : Valid buf) (inside : count ≤ buf.unread.length) :
    (buf.advance count).Valid := by
  unfold Valid
  rw [advance_cursor valid inside]
  rw [unread_length] at inside
  unfold Valid at valid
  simp only [advance]
  omega

theorem advance_unread (valid : Valid buf) (inside : count ≤ buf.unread.length) :
    (buf.advance count).unread = buf.unread.drop count := by
  rw [unread, advance_cursor valid inside, unread, List.drop_drop]
  rfl

theorem advance_advance (buf : DataBuffer) (first second : Nat) :
    (buf.advance first).advance second = buf.advance (first + second) := by
  simp [advance, UInt64.add_assoc]

@[simp] theorem advance_zero (buf : DataBuffer) : buf.advance 0 = buf := by
  simp [advance]

theorem data_run (valid : Valid buf) : data.run buf = .ok buf.unreadVector buf := by
  have inside : buf.cursor ≤ buf.buffer.size := by
    rw [UInt64.le_iff_toNat_le, ByteVector.size_toNat]
    exact valid
  simp [data, inside]

theorem read_run (valid : Valid buf) (width : UInt64) (inside : width.toNat ≤ buf.unread.length) :
    (read width).run buf =
      .ok (buf.unread.take width.toNat) (buf.advance width.toNat) := by
  have bound := buf.bytes_lt
  rw [unread_length] at inside
  unfold Valid at valid
  have checked : ¬ width + buf.cursor > buf.buffer.size := by
    rw [gt_iff_lt, UInt64.lt_iff_toNat_lt, UInt64.toNat_add, ByteVector.size_toNat]
    omega
  have readable : ¬ buf.buffer.bytes.length < buf.cursor.toNat + width.toNat := by omega
  simp [read, checked, readable, advance]

theorem decreaseCursor_run (valid : Valid buf) (inside : count ≤ buf.unread.length) :
    (decreaseCursor (UInt64.ofNat count)).run (buf.advance count) = .ok () buf := by
  have moved := advance_cursor valid inside
  have bound := buf.unread_lt
  have small : (UInt64.ofNat count).toNat = count := UInt64.toNat_ofNat_of_lt' (by
    simp [UInt64.size]; omega)
  have checked : ¬ UInt64.ofNat count > (buf.advance count).cursor := by
    rw [gt_iff_lt, UInt64.lt_iff_toNat_lt, moved, small]
    omega
  simp only [decreaseCursor, EStateM.run_bind, EStateM.run_get, checked, ↓reduceIte,
    EStateM.run_set, EStateM.Result.ok.injEq, true_and]
  simp [advance]

/-- Moving on by a further amount lands where the `size_t` sum points, also
when that sum has wrapped, as long as it is inside. -/
theorem increaseCursor_run (valid : Valid buf) (count : Nat) (amount : UInt64)
    (inside : (UInt64.ofNat count + amount).toNat ≤ buf.unread.length) :
    (increaseCursor amount).run (buf.advance count) =
      .ok () (buf.advance (UInt64.ofNat count + amount).toNat) := by
  have lands : (buf.advance count).cursor + amount = (buf.advance (UInt64.ofNat count + amount).toNat).cursor := by
    rw [advance, advance, UInt64.ofNat_toNat, UInt64.add_assoc]
  have moved := advance_valid valid inside
  have checked : ¬ (buf.advance count).cursor + amount > (buf.advance count).buffer.size := by
    rw [gt_iff_lt, UInt64.lt_iff_toNat_lt, lands, ByteVector.size_toNat]
    exact Nat.not_lt_of_le moved
  simp only [increaseCursor, EStateM.run_bind, EStateM.run_get, checked, ↓reduceIte, EStateM.run_set]
  rw [lands]
  rfl

theorem insertEnd_run (fits : buf.buffer.bytes.length + bytes.length ≤ maxSize) :
    ∃ grown, (insertEnd bytes).run buf = .ok () ⟨grown, buf.cursor⟩ ∧
      grown.bytes = buf.buffer.bytes ++ bytes := by
  obtain ⟨grown, inserted, shape⟩ := buf.buffer.insertEnd_fits fits
  refine ⟨grown, ?_, shape⟩
  simp [insertEnd, EStateM.run, inserted]

/-- Appending bytes that are all readable puts them behind the unread ones,
whatever else lies behind them in memory. -/
theorem append_run (valid : Valid buf) (bytes beyond : List UInt8)
    (fits : buf.buffer.bytes.length + bytes.length ≤ maxSize) :
    ∃ after, (append (some (bytes ++ beyond)) (UInt64.ofNat bytes.length)).run buf = .ok () after ∧
      after.Valid ∧ after.unread = buf.unread ++ bytes ∧
      after.buffer.bytes = buf.buffer.bytes ++ bytes ∧ after.cursor = buf.cursor := by
  have small : (UInt64.ofNat bytes.length).toNat = bytes.length := UInt64.toNat_ofNat_of_lt' (by
    simp [UInt64.size]; unfold maxSize at fits; omega)
  unfold Valid at valid
  by_cases zero : UInt64.ofNat bytes.length = 0
  · have nothing : bytes = [] := by
      rw [zero] at small
      exact List.eq_nil_of_length_eq_zero small.symm
    subst nothing
    exact ⟨buf, by simp [append], valid, by simp, by simp, rfl⟩
  · obtain ⟨grown, inserted, shape⟩ := insertEnd_run fits
    have readable : ¬ (bytes ++ beyond).length < bytes.length := by simp
    refine ⟨⟨grown, buf.cursor⟩, ?_, ?_, ?_, shape, rfl⟩
    · simp only [append, zero, small, readable, ↓reduceIte, List.take_left' rfl, inserted]
    · change buf.cursor.toNat ≤ grown.bytes.length
      rw [shape, List.length_append]
      omega
    · rw [unread, shape, unread, List.drop_append_of_le_length valid]

theorem insertEnd_valid (left : Leaves (insertEnd bytes) buf after) (valid : buf.Valid) : after.Valid := by
  by_cases fits : buf.buffer.bytes.length + bytes.length ≤ maxSize
  · obtain ⟨grown, ran, shape⟩ := insertEnd_run fits
    rcases left with ⟨value, ran'⟩ | ⟨error, ran'⟩ <;> rw [ran] at ran' <;> cases ran'
    change buf.cursor.toNat ≤ grown.bytes.length
    rw [shape, List.length_append]
    exact Nat.le_trans valid (Nat.le_add_right _ _)
  · have refused : buf.buffer.insertEnd bytes = none := dif_neg (by rwa [List.length_append])
    have ran : (insertEnd bytes).run buf = .error (.thrown .lengthError) buf := by
      simp [insertEnd, EStateM.run, refused]
    rcases left with ⟨value, ran'⟩ | ⟨error, ran'⟩ <;> rw [ran] at ran' <;> cases ran'
    exact valid

/-- Appending anything, also more than a vector can hold, leaves the cursor inside. -/
theorem append_valid {source : Option (List UInt8)} (left : Leaves (append source len) buf after)
    (valid : buf.Valid) : after.Valid := by
  unfold append at left
  split at left
  · rcases left with ⟨value, ran⟩ | ⟨error, ran⟩ <;> cases ran
    exact valid
  · rcases left.ite with ⟨_, left⟩ | ⟨_, left⟩
    · rcases left with ⟨value, ran⟩ | ⟨error, ran⟩ <;> cases ran
      exact valid
    · rcases left.ite with ⟨_, left⟩ | ⟨_, left⟩
      · rcases left with ⟨value, ran⟩ | ⟨error, ran⟩ <;> cases ran
      · exact insertEnd_valid left valid

/-- The same, out of a vector: an empty one has nothing to copy. -/
theorem append_data_run (valid : Valid buf) (source : ByteVector) (shape : source.bytes = bytes ++ beyond)
    (fits : buf.buffer.bytes.length + bytes.length ≤ maxSize) :
    ∃ after, (append source.data (UInt64.ofNat bytes.length)).run buf = .ok () after ∧
      after.cursor = buf.cursor ∧ after.unread = buf.unread ++ bytes := by
  by_cases none : source.bytes = []
  · have nothing : bytes = [] := (List.append_eq_nil_iff.mp (shape.symm.trans none)).1
    subst nothing
    exact ⟨buf, by simp [append, ByteVector.data, none], rfl, by simp⟩
  · obtain ⟨after, appended, _, bytes, _, cursor⟩ := append_run valid bytes beyond fits
    refine ⟨after, ?_, cursor, bytes⟩
    rw [ByteVector.data, if_neg none, shape]
    exact appended

end DataBuffer
end Libftpp
