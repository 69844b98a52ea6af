import Libftpp.Message

/-! Values of known types in a stream of bytes. A value of a fixed-size type is
its bytes, a string is its length as a `size_t` and then its characters. Reading
with the type that was written gives the value back and leaves the stream behind
it, whatever follows. -/
namespace Libftpp
open ByteCodec Program

/-- The type of a value: trivially copyable with this `sizeof`, which is never 0
and never more than an object can have, or `std::string`. -/
inductive Kind where
  | fixed (width : UInt64) (positive : 0 < width.toNat) (bounded : width.toNat ≤ maxSize)
  | text
  deriving DecidableEq

namespace Kind

/-- These bytes are a value of the type. -/
def Holds (kind : Kind) (bytes : List UInt8) : Prop :=
  match kind with
  | .fixed width _ _ => bytes.length = width.toNat
  | .text => bytes.length ≤ maxSize

instance (kind : Kind) (bytes : List UInt8) : Decidable (kind.Holds bytes) :=
  match kind with
  | .fixed width _ _ => inferInstanceAs (Decidable (bytes.length = width.toNat))
  | .text => inferInstanceAs (Decidable (bytes.length ≤ maxSize))

theorem Holds.size {bytes : List UInt8} (holds : Kind.text.Holds bytes) :
    (UInt64.ofNat bytes.length).toNat = bytes.length := by
  have bound : bytes.length ≤ 2 ^ 63 - 1 := holds
  exact UInt64.toNat_ofNat_of_lt' (by simp [UInt64.size]; omega)

variable [Platform]

/-- A value as it stands in the stream. -/
def encode (kind : Kind) (bytes : List UInt8) : List UInt8 :=
  match kind with
  | .fixed _ _ _ => bytes
  | .text => encodeSize (UInt64.ofNat bytes.length) ++ bytes

theorem encode_length_pos {kind : Kind} (holds : kind.Holds bytes) : 0 < (kind.encode bytes).length := by
  cases kind with
  | fixed width positive bounded =>
    rw [encode, holds]
    exact positive
  | text =>
    rw [encode, List.length_append, encodeSize_length]
    omega

end Kind

namespace DataBuffer

theorem insertEnd_returns (ran : (insertEnd bytes).run buf = .ok () after) :
    after.buffer.bytes = buf.buffer.bytes ++ bytes ∧ after.cursor = buf.cursor := by
  by_cases fits : buf.buffer.bytes.length + bytes.length ≤ maxSize
  · obtain ⟨grown, inserted, shape⟩ := insertEnd_run fits
    cases inserted.symm.trans ran
    exact ⟨shape, rfl⟩
  · have refused : buf.buffer.insertEnd bytes = none := dif_neg (by rwa [List.length_append])
    simp [insertEnd, EStateM.run, refused] at ran

/-- The part of `operator>>` for a string behind the length: the test, the copy
and the move of the cursor. -/
def assignFrom (overflow : Exn) (size : UInt64) : Program Exn DataBuffer (List UInt8) := do
  let buf ← get
  if size + buf.cursor > buf.buffer.size then raise overflow
  else if buf.buffer.bytes.length < buf.cursor.toNat + size.toNat then undefinedBehaviour
  else do
    set { buf with cursor := buf.cursor + size }
    pure (buf.unread.take size.toNat)

/-- It copies exactly when a value of that size can be read. -/
theorem assignFrom_returns {overflow : Exn} {size : UInt64} :
    (assignFrom overflow size).run buf = .ok bytes after ↔ (read size).run buf = .ok bytes after := by
  unfold assignFrom read
  simp only [EStateM.run_bind, EStateM.run_get]
  split
  · simp
  · rfl

/-- Bytes at the front are read whole. -/
theorem read_front (valid : Valid buf) (width : UInt64) (sized : front.length = width.toNat)
    (shape : buf.unread = front ++ rest) :
    ∃ after, (read width).run buf = .ok front after ∧ after.Valid ∧ after.unread = rest ∧
      after.buffer = buf.buffer := by
  have inside : width.toNat ≤ buf.unread.length := by
    rw [shape, List.length_append, sized]
    exact Nat.le_add_right _ _
  refine ⟨buf.advance width.toNat, ?_, advance_valid valid inside, ?_, rfl⟩
  · rw [read_run valid width inside, shape, ← sized, List.take_left' rfl]
  · rw [advance_unread valid inside, shape, ← sized, List.drop_left' rfl]

/-- What has been read was there. -/
theorem read_returns {width : UInt64} (ran : (read width).run buf = .ok bytes after) :
    width.toNat ≤ buf.unread.length ∧ bytes = buf.unread.take width.toNat := by
  unfold read at ran
  simp only [EStateM.run_bind, EStateM.run_get] at ran
  split at ran
  · cases ran
  · split at ran
    · cases ran
    · cases ran
      rw [unread_length]
      exact ⟨by omega, rfl⟩

/-- More than there is cannot be read. -/
theorem read_short (valid : Valid buf) {width : UInt64} (bounded : width.toNat ≤ maxSize)
    (short : buf.unread.length < width.toNat) :
    (read width).run buf = .error (.thrown (.outOfRange "Buffer overflow on read")) buf := by
  have bound := buf.bytes_lt
  rw [unread_length] at short
  unfold Valid at valid
  unfold maxSize at bounded
  have checked : width + buf.cursor > buf.buffer.size := by
    rw [gt_iff_lt, UInt64.lt_iff_toNat_lt, UInt64.toNat_add, ByteVector.size_toNat]
    omega
  simp [read, checked]

variable [Platform]

/-- `operator<<` for a string. -/
def writeString (string : List UInt8) : Program Exn DataBuffer Unit := do
  write (encodeSize (UInt64.ofNat string.length))
  insertEnd string

/-- `operator>>` for a string; this is thrown where its length leads out of the
vector. -/
def readStringOr (overflow : Exn) : Program Exn DataBuffer (List UInt8) := do
  let size := decodeSize (← read 8)
  assignFrom overflow size

/-- `operator<<` for a value of either type. -/
def writeValue (kind : Kind) (bytes : List UInt8) : Program Exn DataBuffer Unit :=
  match kind with
  | .fixed _ _ _ => write bytes
  | .text => writeString bytes

/-- `operator>>` for a value of either type. -/
def readValue (overflow : Exn) (kind : Kind) : Program Exn DataBuffer (List UInt8) :=
  match kind with
  | .fixed width _ _ => read width
  | .text => readStringOr overflow

/-! ### Writing -/

/-- What is written goes behind everything else. -/
theorem writeValue_returns {kind : Kind} (ran : (writeValue kind bytes).run buf = .ok () after) :
    after.buffer.bytes = buf.buffer.bytes ++ kind.encode bytes ∧ after.cursor = buf.cursor := by
  cases kind with
  | fixed width positive bounded => exact insertEnd_returns ran
  | text =>
    obtain ⟨_, middle, first, second⟩ := bind_returns.mp ran
    obtain ⟨prefixed, kept⟩ := insertEnd_returns first
    obtain ⟨whole, same⟩ := insertEnd_returns second
    exact ⟨by rw [whole, prefixed, Kind.encode, List.append_assoc], same.trans kept⟩

/-- Writing succeeds as long as the vector can hold the result. -/
theorem writeValue_run {kind : Kind} (fits : buf.buffer.bytes.length + (kind.encode bytes).length ≤ maxSize) :
    ∃ after, (writeValue kind bytes).run buf = .ok () after := by
  cases kind with
  | fixed width positive bounded =>
    obtain ⟨_, ran, _⟩ := insertEnd_run fits
    exact ⟨_, ran⟩
  | text =>
    rw [Kind.encode, List.length_append] at fits
    obtain ⟨grown, first, shape⟩ := insertEnd_run (Nat.le_trans (Nat.add_le_add_left (Nat.le_add_right _ _) _) fits)
    obtain ⟨_, second, _⟩ := @insertEnd_run bytes ⟨grown, buf.cursor⟩
      (by simp only [shape, List.length_append]; omega)
    exact ⟨_, bind_returns.mpr ⟨(), _, first, second⟩⟩

/-! ### Reading -/

/-- A value is read back, and the stream goes on behind it. -/
theorem readValue_run {kind : Kind} (overflow : Exn) (valid : Valid buf) (holds : kind.Holds bytes)
    (shape : buf.unread = kind.encode bytes ++ rest) :
    ∃ after, (readValue overflow kind).run buf = .ok bytes after ∧ after.Valid ∧ after.unread = rest ∧
      after.buffer = buf.buffer := by
  cases kind with
  | fixed width positive bounded =>
    obtain ⟨after, ran, inside, behind, same⟩ := read_front valid width holds shape
    exact ⟨after, ran, inside, behind, same⟩
  | text =>
    rw [Kind.encode, List.append_assoc] at shape
    obtain ⟨middle, prefixed, inside, behind, same⟩ := read_front valid 8 (encodeSize_length _) shape
    obtain ⟨after, taken, inside', behind', same'⟩ :=
      read_front inside (UInt64.ofNat bytes.length) holds.size.symm behind
    refine ⟨after, ?_, inside', behind', same'.trans same⟩
    refine bind_returns.mpr ⟨_, middle, prefixed, ?_⟩
    rw [decodeSize_encodeSize]
    exact assignFrom_returns.mpr taken

theorem readValue_empty (kind : Kind) (valid : Valid buf) (none : buf.unread = []) (overflow : Exn) :
    (readValue overflow kind).run buf = .error (.thrown (.outOfRange "Buffer overflow on read")) buf := by
  cases kind with
  | fixed width positive bounded => exact read_short valid bounded (by rw [none]; exact positive)
  | text => exact bind_stops.mpr (Or.inl (read_short valid (by decide) (by rw [none]; decide)))

end DataBuffer
end Libftpp
