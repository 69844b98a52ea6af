import Libftpp.BoundsChecks

/-! The cursor of the data buffer (`data_buffer.cpp`) in every run of calls, whatever
amounts are asked for and whatever lengths stand in the bytes. A sum that wraps
can pass a check, but then it is the wrapped sum that has been compared with the
size of the vector, and the cursor becomes just that. -/
namespace Libftpp
open ByteCodec Program

namespace DataBuffer

/-- What comes of copying so many characters where the end of the range lies
before its beginning: some characters, or an exception. Nothing is known of it. -/
abbrev StrayCopy := DataBuffer → UInt64 → Except Exn (List UInt8)

/-- The part of `operator>>` for a string behind the length, with a copy that
comes back from every range. -/
def assignAnyway (stray : StrayCopy) (size : UInt64) : Program Exn DataBuffer (List UInt8) := do
  let buf ← get
  if size + buf.cursor > buf.buffer.size then raise (.outOfRange "Buffer overflow on read")
  else
    let copied := if buf.buffer.bytes.length < buf.cursor.toNat + size.toNat then stray buf size
      else .ok (buf.unread.take size.toNat)
    match copied with
    | .error error => raise error
    | .ok characters => do
      set { buf with cursor := buf.cursor + size }
      pure characters

theorem assignAnyway_eq {stray : StrayCopy} {size : UInt64}
    (defined : ∀ after, (assignFrom (.outOfRange "Buffer overflow on read") size).run buf ≠ .error .undefined after) :
    (assignAnyway stray size).run buf = (assignFrom (.outOfRange "Buffer overflow on read") size).run buf := by
  unfold assignAnyway assignFrom at *
  simp only [EStateM.run_bind, EStateM.run_get] at *
  by_cases refused : size + buf.cursor > buf.buffer.size
  · rw [if_pos refused, if_pos refused]
  · by_cases outside : buf.buffer.bytes.length < buf.cursor.toNat + size.toNat
    · rw [if_neg refused, if_pos outside] at defined
      exact absurd rfl (defined buf)
    · simp only [if_neg refused, if_neg outside]

/-! ### What an operation keeps -/

theorem insertEnd_keeps (bytes : List UInt8) : Keeps Valid (insertEnd bytes) := by
  intro before valid
  have left : ∃ after, Leaves (insertEnd bytes) before after := by
    cases inserted : before.buffer.insertEnd bytes with
    | some grown =>
      exact ⟨⟨grown, before.cursor⟩, Or.inl ⟨(), by simp [insertEnd, EStateM.run, inserted]⟩⟩
    | none => exact ⟨before, Or.inr ⟨.lengthError, by simp [insertEnd, EStateM.run, inserted]⟩⟩
  obtain ⟨after, left⟩ := left
  exact ⟨after, left, insertEnd_valid left valid⟩

theorem append_keeps {source : Option (List UInt8)} {len : UInt64}
    (readable : ∀ bytes ∈ source, len.toNat ≤ bytes.length) : Keeps Valid (append source len) := by
  cases source with
  | none => exact Keeps.pure ()
  | some bytes =>
    have within : ¬ bytes.length < len.toNat := Nat.not_lt_of_le (readable bytes rfl)
    simp only [append, within, ↓reduceIte]
    split
    · exact Keeps.pure ()
    · exact insertEnd_keeps _

theorem read_keeps {width : UInt64} (bounded : width.toNat ≤ maxSize) : Keeps Valid (read width) := by
  intro before valid
  by_cases short : before.unread.length < width.toNat
  · exact ⟨before, Or.inr ⟨_, read_short valid bounded short⟩, valid⟩
  · have inside := Nat.le_of_not_lt short
    exact ⟨_, .of_returns (read_run valid width inside), advance_valid valid inside⟩

/-- The sum that has passed the check, wrapped or not, is where the cursor goes. -/
theorem moved_valid {buf : DataBuffer} {amount : UInt64} (passes : ¬ buf.cursor + amount > buf.buffer.size) :
    Valid { buf with cursor := buf.cursor + amount } := by
  have inside : buf.cursor + amount ≤ buf.buffer.size := UInt64.not_lt.mp passes
  rwa [UInt64.le_iff_toNat_le, ByteVector.size_toNat] at inside

theorem assignAnyway_keeps (stray : StrayCopy) (size : UInt64) : Keeps Valid (assignAnyway stray size) := by
  intro before valid
  unfold Leaves assignAnyway
  simp only [EStateM.run_bind, EStateM.run_get]
  split
  · exact ⟨before, Or.inr ⟨_, rfl⟩, valid⟩
  · rename_i passes
    rw [UInt64.add_comm] at passes
    split
    · exact ⟨before, Or.inr ⟨_, rfl⟩, valid⟩
    · exact ⟨_, Or.inl ⟨_, rfl⟩, moved_valid passes⟩

theorem increaseCursor_keeps (amount : UInt64) : Keeps Valid (increaseCursor amount) := by
  intro before valid
  by_cases outside : before.cursor + amount > before.buffer.size
  · exact ⟨before, Or.inr ⟨_, increaseCursor_throws outside⟩, valid⟩
  · exact ⟨_, .of_returns (increaseCursor_moves outside), moved_valid outside⟩

theorem decreaseCursor_keeps (amount : UInt64) : Keeps Valid (decreaseCursor amount) := by
  intro before valid
  have exactly := decreaseExact before amount
  unfold DecreaseExact at exactly
  split at exactly
  · exact ⟨before, Or.inr ⟨_, exactly⟩, valid⟩
  · obtain ⟨after, ran, same, moved⟩ := exactly
    refine ⟨after, .of_returns ran, ?_⟩
    unfold Valid at *
    rw [same, moved]
    exact Nat.le_trans (Nat.sub_le ..) valid

theorem data_keeps : Keeps Valid data :=
  fun before valid => ⟨before, .of_returns (data_run valid), valid⟩

section Calls
variable [Platform]

/-- `operator>>` for a string, with a copy that comes back from every range. -/
def readStringAnyway (stray : StrayCopy) : Program Exn DataBuffer (List UInt8) := do
  let size := decodeSize (← read 8)
  assignAnyway stray size

/-- A call of the buffer. A pointer given to `append` reaches as far as it says. -/
inductive Call where
  | write (value : TypedValue)
  | read (kind : Kind)
  | append (data : Option (List UInt8)) (len : UInt64) (readable : ∀ bytes ∈ data, len.toNat ≤ bytes.length)
  | increaseCursor (amount : UInt64)
  | decreaseCursor (amount : UInt64)
  | reset
  | clear
  | size
  | data

def performCall (stray : StrayCopy) : Call → Program Exn DataBuffer Answer
  | .write value => do
    writeValue value.kind value.bytes
    pure .done
  | .read (.fixed width _ _) => do pure (.value (← read width))
  | .read .text => do pure (.value (← readStringAnyway stray))
  | .append data len _ => do
    append data len
    pure .done
  | .increaseCursor amount => do
    increaseCursor amount
    pure .done
  | .decreaseCursor amount => do
    decreaseCursor amount
    pure .done
  | .reset => do
    reset
    pure .done
  | .clear => do
    clear
    pure .done
  | .size => do pure (.size (← get).size)
  | .data => do pure (.data (← data).bytes)

/-- A call whose exception the caller catches. -/
def answeredCall (stray : StrayCopy) (call : Call) : Program Exn DataBuffer Answer := do
  match ← caught (performCall stray call) with
  | .ok answer => pure answer
  | .error error => pure (.threw error)

/-- Performs calls in turn and collects the answers. -/
def performCalls (stray : StrayCopy) : List Call → Program Exn DataBuffer (List Answer)
  | [] => pure []
  | call :: calls => do
    let answer ← answeredCall stray call
    let answers ← performCalls stray calls
    pure (answer :: answers)

/-- A string read that has a meaning is the one of the source. -/
theorem readStringAnyway_eq {stray : StrayCopy} (defined : ∀ after, readString.run buf ≠ .error .undefined after) :
    (readStringAnyway stray).run buf = readString.run buf := by
  unfold readStringAnyway readString readStringOr at *
  simp only [EStateM.run_bind] at *
  cases ran : (read 8).run buf with
  | ok bytes middle =>
    rw [ran] at defined
    exact assignAnyway_eq defined
  | error halt middle => rfl

/-! ### What a call keeps -/

theorem writeValue_keeps (kind : Kind) (bytes : List UInt8) : Keeps Valid (writeValue kind bytes) := by
  cases kind with
  | fixed width positive bounded => exact insertEnd_keeps bytes
  | text => exact Keeps.bind (insertEnd_keeps _) fun _ => insertEnd_keeps bytes

theorem readStringAnyway_keeps (stray : StrayCopy) : Keeps Valid (readStringAnyway stray) :=
  Keeps.bind (read_keeps (by decide)) fun _ => assignAnyway_keeps stray _

/-- Every call comes back, by returning or throwing, with the cursor inside. -/
theorem performCall_keeps (stray : StrayCopy) (call : Call) : Keeps Valid (performCall stray call) := by
  cases call with
  | write value => exact Keeps.bind (writeValue_keeps value.kind value.bytes) fun _ => Keeps.pure _
  | read kind =>
    cases kind with
    | fixed width positive bounded => exact Keeps.bind (read_keeps bounded) fun _ => Keeps.pure _
    | text => exact Keeps.bind (readStringAnyway_keeps stray) fun _ => Keeps.pure _
  | append source len readable => exact Keeps.bind (append_keeps readable) fun _ => Keeps.pure _
  | increaseCursor amount => exact Keeps.bind (increaseCursor_keeps amount) fun _ => Keeps.pure _
  | decreaseCursor amount => exact Keeps.bind (decreaseCursor_keeps amount) fun _ => Keeps.pure _
  | reset => exact Keeps.bind (Keeps.modify fun buf _ => Nat.zero_le buf.buffer.bytes.length) fun _ => Keeps.pure _
  | clear => exact Keeps.bind (fun _ _ => ⟨_, .of_returns rfl, empty_valid⟩) fun _ => Keeps.pure _
  | size => exact fun before valid => ⟨before, .of_returns rfl, valid⟩
  | data => exact Keeps.bind data_keeps fun _ => Keeps.pure _

/-! ### Runs -/

theorem performCalls_returns (stray : StrayCopy) (calls : List Call) (valid : Valid buf) :
    ∃ answers after, (performCalls stray calls).run buf = .ok answers after ∧ after.Valid := by
  induction calls generalizing buf with
  | nil => exact ⟨[], buf, rfl, valid⟩
  | cons call calls ih =>
    obtain ⟨outcome, middle, ran, kept⟩ := (performCall_keeps stray call).caught valid
    have answer : ∃ answer, (answeredCall stray call).run buf = .ok answer middle := by
      cases outcome with
      | ok answer => exact ⟨answer, bind_returns.mpr ⟨_, middle, ran, rfl⟩⟩
      | error error => exact ⟨.threw error, bind_returns.mpr ⟨_, middle, ran, rfl⟩⟩
    obtain ⟨answer, answered⟩ := answer
    obtain ⟨answers, after, rest, inside⟩ := ih kept
    refine ⟨answer :: answers, after, ?_, inside⟩
    exact bind_returns.mpr ⟨answer, middle, answered, bind_returns.mpr ⟨answers, after, rest, rfl⟩⟩

/-- Whatever is called on a new buffer, with whatever arguments, and whatever has
been thrown on the way: the cursor is inside the vector, the size is what lies
behind it, and `data` copies a range. -/
theorem cursor_stays_inside (stray : StrayCopy) (calls : List Call) :
    ∃ answers after, (performCalls stray calls).run .empty = .ok answers after ∧ after.Valid ∧
      after.size.toNat + after.cursor.toNat = after.buffer.bytes.length ∧
      data.run after = .ok after.unreadVector after := by
  obtain ⟨answers, after, ran, valid⟩ := performCalls_returns stray calls empty_valid
  have size : after.size.toNat + after.cursor.toNat = after.buffer.bytes.length := by
    rw [size_toNat valid, unread_length]
    exact Nat.sub_add_cancel valid
  exact ⟨answers, after, ran, valid, size, data_run valid⟩

end Calls

attribute [local instance] Platform.littleEndian

/-- The wrapped sum of 9 and the largest length moves the cursor back by one. -/
example : (readStringAnyway fun _ _ => .ok []).run largestLength = .ok [] { largestLength with cursor := 8 } := rfl

end DataBuffer
end Libftpp
