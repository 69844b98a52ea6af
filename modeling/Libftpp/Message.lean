import Libftpp.DataBuffer
import Libftpp.StreamDecoding

/-! Messages (`message.hpp`, `message.cpp`) and their transfer format
`[type (int)][size (size_t)][data]`. A message carries its payload in a data
buffer, of which only the unread part is sent. What is on the wire is a packet:
the type and the payload, without cursor or descriptor. The format is a codec
of packets, for lengths computed without wrap-around. -/
namespace Libftpp
open ByteCodec Program StreamDecoding

section Fields
variable [Platform]

/-- The bytes of an `int`. -/
def encodeInt (value : Int32) : List UInt8 := toBytes Platform.order 4 value.toUInt32.toNat

/-- The `int` these four bytes hold. -/
def decodeInt (bytes : List UInt8) : Int32 := (UInt32.ofNat (ofBytes Platform.order bytes)).toInt32

/-- The bytes of a `size_t`. -/
def encodeSize (value : UInt64) : List UInt8 := toBytes Platform.order 8 value.toNat

/-- The `size_t` these eight bytes hold. -/
def decodeSize (bytes : List UInt8) : UInt64 := UInt64.ofNat (ofBytes Platform.order bytes)

@[simp] theorem encodeInt_length (value : Int32) : (encodeInt value).length = 4 := toBytes_length ..

@[simp] theorem encodeSize_length (value : UInt64) : (encodeSize value).length = 8 := toBytes_length ..

@[simp] theorem decodeInt_encodeInt (value : Int32) : decodeInt (encodeInt value) = value := by
  have bound : value.toUInt32.toNat < 256 ^ 4 := value.toUInt32.toNat_lt
  simp [decodeInt, encodeInt, ofBytes_toBytes _ bound]

@[simp] theorem decodeSize_encodeSize (value : UInt64) : decodeSize (encodeSize value) = value := by
  have bound : value.toNat < 256 ^ 8 := value.toNat_lt
  simp [decodeSize, encodeSize, ofBytes_toBytes _ bound]

theorem encodeInt_decodeInt (sized : bytes.length = 4) : encodeInt (decodeInt bytes) = bytes := by
  have bound : ofBytes Platform.order bytes < 2 ^ 32 := by
    simpa [sized] using ofBytes_lt Platform.order bytes
  simp [encodeInt, decodeInt, UInt32.toNat_ofNat_of_lt' bound, toBytes_ofBytes _ sized]

theorem encodeSize_decodeSize (sized : bytes.length = 8) : encodeSize (decodeSize bytes) = bytes := by
  have bound : ofBytes Platform.order bytes < 2 ^ 64 := by
    simpa [sized] using ofBytes_lt Platform.order bytes
  simp [encodeSize, decodeSize, UInt64.toNat_ofNat_of_lt' bound, toBytes_ofBytes _ sized]

end Fields

/-! ### Packets -/

/-- What a message says: a type and a payload whose length a `size_t` can hold. -/
@[ext] structure Packet where
  type : Int32
  payload : List UInt8
  fits : payload.length < 2 ^ 64
  deriving DecidableEq

namespace Packet

theorem nil_fits : ([] : List UInt8).length < 2 ^ 64 := Nat.two_pow_pos 64

theorem payload_length_toNat (packet : Packet) :
    (UInt64.ofNat packet.payload.length).toNat = packet.payload.length :=
  UInt64.toNat_ofNat_of_lt' packet.fits

variable [Platform]

/-- The type announced by the header at the front. -/
def typeField (bytes : List UInt8) : Int32 := decodeInt (bytes.take 4)

/-- The payload length announced by the header at the front. -/
def lengthField (bytes : List UInt8) : UInt64 := decodeSize ((bytes.drop 4).take 8)

/-- The transfer format of one packet. -/
def encode (packet : Packet) : List UInt8 :=
  encodeInt packet.type ++ encodeSize (UInt64.ofNat packet.payload.length) ++ packet.payload

/-- Takes a packet off the front once its header and its whole payload are there. -/
def next (bytes : List UInt8) : Option (Packet × List UInt8) :=
  if 12 ≤ bytes.length ∧ 12 + (lengthField bytes).toNat ≤ bytes.length then
    some (⟨typeField bytes, (bytes.drop 12).take (lengthField bytes).toNat,
      Nat.lt_of_le_of_lt (List.length_take_le _ _) (lengthField bytes).toNat_lt⟩,
      bytes.drop (12 + (lengthField bytes).toNat))
  else none

@[simp] theorem encode_length (packet : Packet) : packet.encode.length = 12 + packet.payload.length := by
  simp [encode]
  omega

theorem typeField_encode (packet : Packet) (rest : List UInt8) :
    typeField (packet.encode ++ rest) = packet.type := by
  have front : (packet.encode ++ rest).take 4 = encodeInt packet.type := by
    rw [encode, List.append_assoc, List.append_assoc, List.take_left' (encodeInt_length _)]
  rw [typeField, front, decodeInt_encodeInt]

theorem lengthField_encode (packet : Packet) (rest : List UInt8) :
    lengthField (packet.encode ++ rest) = UInt64.ofNat packet.payload.length := by
  have front : ((packet.encode ++ rest).drop 4).take 8 =
      encodeSize (UInt64.ofNat packet.payload.length) := by
    rw [encode, List.append_assoc, List.append_assoc, List.drop_left' (encodeInt_length _),
      List.take_left' (encodeSize_length _)]
  rw [lengthField, front, decodeSize_encodeSize]

/-- A complete header announces its length whatever arrives behind it. -/
theorem lengthField_append (header : 12 ≤ bytes.length) (more : List UInt8) :
    lengthField (bytes ++ more) = lengthField bytes := by
  rw [lengthField, lengthField, List.drop_append_of_le_length (by omega),
    List.take_append_of_le_length (by rw [List.length_drop]; omega)]

theorem next_encode (packet : Packet) (rest : List UInt8) :
    next (packet.encode ++ rest) = some (packet, rest) := by
  have header : (encodeInt packet.type ++ encodeSize (UInt64.ofNat packet.payload.length)).length = 12 := by
    simp
  have payload : ((packet.encode ++ rest).drop 12).take packet.payload.length = packet.payload := by
    rw [encode, List.append_assoc, List.drop_left' header, List.take_left' rfl]
  have tail : (packet.encode ++ rest).drop (12 + packet.payload.length) = rest :=
    List.drop_left' packet.encode_length
  have complete : 12 ≤ (packet.encode ++ rest).length ∧
      12 + (lengthField (packet.encode ++ rest)).toNat ≤ (packet.encode ++ rest).length := by
    rw [lengthField_encode, payload_length_toNat, List.length_append, encode_length]
    omega
  rw [next, if_pos complete]
  simp only [Option.some.injEq, Prod.mk.injEq, Packet.ext_iff]
  refine ⟨⟨typeField_encode packet rest, ?_⟩, ?_⟩
  · rw [lengthField_encode, payload_length_toNat, payload]
  · rw [lengthField_encode, payload_length_toNat, tail]

theorem encode_of_next (taken : next bytes = some (packet, rest)) : bytes = packet.encode ++ rest := by
  unfold next at taken
  split at taken
  · rename_i complete
    simp only [Option.some.injEq, Prod.mk.injEq] at taken
    obtain ⟨rfl, rfl⟩ := taken
    have sized : ((bytes.drop 12).take (lengthField bytes).toNat).length = (lengthField bytes).toNat := by
      rw [List.length_take, List.length_drop]
      omega
    have type : encodeInt (typeField bytes) = bytes.take 4 :=
      encodeInt_decodeInt (by rw [List.length_take]; omega)
    have length : encodeSize (UInt64.ofNat (lengthField bytes).toNat) = (bytes.drop 4).take 8 := by
      rw [UInt64.ofNat_toNat]
      exact encodeSize_decodeSize (by rw [List.length_take, List.length_drop]; omega)
    simp only [encode, sized, type, length]
    rw [← List.drop_drop, List.append_assoc, List.take_append_drop, List.append_assoc,
      show bytes.drop 12 = (bytes.drop 4).drop 8 by rw [List.drop_drop], List.take_append_drop,
      List.take_append_drop]
  · cases taken

/-- The transfer format is a codec of packets. -/
def codec : Codec UInt8 Packet where
  encode := encode
  next := next
  nonempty packet := List.ne_nil_of_length_pos (by rw [encode_length]; omega)
  next_iff := ⟨encode_of_next, fun shape => shape ▸ next_encode _ _⟩

theorem codec_encode (packet : Packet) : codec.encode packet = packet.encode := rfl

theorem codec_next_none : codec.next bytes = none ↔
    bytes.length < 12 ∨ bytes.length < 12 + (lengthField bytes).toNat := by
  change next bytes = none ↔ _
  unfold next
  split
  · simp
    omega
  · rename_i missing
    simp only [true_iff]
    omega

end Packet

/-! ### The class -/

/-- `sizeof(Message::Type) + sizeof(size_t)`. -/
def headerSize : UInt64 := 4 + 8

@[simp] theorem headerSize_toNat : headerSize.toNat = 12 := rfl

/-- `class Message`. The constructor that takes only a type leaves `_fd`
indeterminate, here `none`. -/
@[ext] structure Message where
  fd : Option Int
  type : Int32
  buffer : DataBuffer
  deriving DecidableEq

namespace Message

/-- `Message::Message(Message::Type)`. -/
def ofType (type : Int32) : Message := ⟨none, type, .empty⟩

/-- `Message::Message(int, Message::Type)`. -/
def ofFdType (fd : Int) (type : Int32) : Message := ⟨some fd, type, .empty⟩

/-- `Message::Message()`. -/
def new : Message := ⟨some (-1), 0, .empty⟩

/-- `Message::setMessageFd`. -/
def setMessageFd (message : Message) (fd : Int) : Message := { message with fd := some fd }

/-- Runs an operation of the message's `_buffer`. -/
def onBuffer (operation : Program Exn DataBuffer α) : Program Exn Message α :=
  zoom (·.buffer) (fun message buffer => { message with buffer }) operation

/-- `Message::appendBytes`. -/
def appendBytes (data : Option (List UInt8)) (len : UInt64) : Program Exn Message Unit :=
  onBuffer (DataBuffer.append data len)

/-- `Message::incr_cursor`. -/
def incr_cursor (len : UInt64) : Program Exn Message Unit := onBuffer (DataBuffer.increaseCursor len)

theorem onBuffer_returns {operation : Program Exn DataBuffer α}
    (ran : operation.run message.buffer = .ok value after) :
    (onBuffer operation).run message = .ok value { message with buffer := after } :=
  zoom_returns ran

theorem onBuffer_stops {operation : Program Exn DataBuffer α}
    (ran : operation.run message.buffer = .error halt after) :
    (onBuffer operation).run message = .error halt { message with buffer := after } :=
  zoom_stops ran

variable [Platform]

/-- `Message::operator>>` into an `int`. -/
def readInt : Program Exn Message Int32 := decodeInt <$> onBuffer (DataBuffer.read 4)

/-- `Message::operator>>` into a `size_t`. -/
def readSize : Program Exn Message UInt64 := decodeSize <$> onBuffer (DataBuffer.read 8)

/-- `Message::isComplet`. The two reads are undone before the sizes are
compared; the right-hand side of the comparison is a `size_t` sum. -/
def isComplet : Program Exn Message Bool := do
  let message ← get
  if message.buffer.size < headerSize then pure false
  else do
    let _type ← readInt
    let messageSize ← readSize
    onBuffer (DataBuffer.decreaseCursor headerSize)
    let message ← get
    pure (headerSize + messageSize ≤ message.buffer.size)

/-- The bytes `getSerializedData` puts together. -/
def serialized (message : Message) : List UInt8 :=
  encodeInt message.type ++ encodeSize message.buffer.size ++ message.buffer.unread

/-- `Message::getSerializedData`. `reserve` refuses a size no vector can have. -/
def getSerializedData : Program Exn Message (List UInt8) := do
  let message ← get
  if maxSize < (headerSize + message.buffer.size).toNat then raise .lengthError
  else do
    let bufData ← onBuffer DataBuffer.data
    pure (encodeInt message.type ++ encodeSize message.buffer.size ++ bufData.bytes)

/-- What the message says to a reader. -/
def packet (message : Message) : Packet :=
  ⟨message.type, message.buffer.unread, Nat.lt_trans message.buffer.unread_lt (by decide)⟩

/-- The buffer's cursor is inside its vector. -/
def Valid (message : Message) : Prop := message.buffer.Valid

instance (message : Message) : Decidable message.Valid := inferInstanceAs (Decidable (_ ≤ _))

/-- The unread payload. -/
abbrev unread (message : Message) : List UInt8 := message.buffer.unread

/-- Nothing of the message has been read yet. -/
def Untouched (message : Message) : Prop := message.buffer.cursor = 0

omit [Platform] in
theorem Untouched.valid (untouched : Untouched message) : message.Valid := by
  rw [Valid, DataBuffer.Valid, untouched]
  exact Nat.zero_le _

omit [Platform] in
/-- Then its buffer holds the payload and nothing else. -/
theorem Untouched.unread (untouched : Untouched message) : message.unread = message.buffer.buffer.bytes := by
  rw [Message.unread, DataBuffer.unread, untouched]
  rfl

/-- The message after `count` more bytes have been read. -/
def advance (message : Message) (count : Nat) : Message :=
  { message with buffer := message.buffer.advance count }

theorem readInt_run (valid : Valid message) (inside : 4 ≤ message.unread.length) :
    readInt.run message = .ok (decodeInt (message.unread.take 4)) (message.advance 4) := by
  rw [readInt, run_map, onBuffer_returns (DataBuffer.read_run valid 4 inside)]
  rfl

theorem readSize_run (valid : Valid message) (inside : 8 ≤ message.unread.length) :
    readSize.run message = .ok (decodeSize (message.unread.take 8)) (message.advance 8) := by
  rw [readSize, run_map, onBuffer_returns (DataBuffer.read_run valid 8 inside)]
  rfl

/-- The two header reads, in the order both receivers and `isComplet` make them. -/
theorem header_run (valid : Valid message) (inside : 12 ≤ message.unread.length) :
    readInt.run message = .ok (Packet.typeField message.unread) (message.advance 4) ∧
      readSize.run (message.advance 4) =
        .ok (Packet.lengthField message.unread) (message.advance 12) := by
  have between : (message.advance 4).Valid := DataBuffer.advance_valid valid (by unfold unread at inside; omega)
  have rest : (message.advance 4).unread = message.unread.drop 4 :=
    DataBuffer.advance_unread valid (by unfold unread at inside; omega)
  refine ⟨readInt_run valid (by omega), ?_⟩
  rw [readSize_run between (by rw [rest, List.length_drop]; omega), rest]
  simp [advance, DataBuffer.advance_advance, Packet.lengthField]

/-- What `isComplet` finds out: a whole header is there, and the `size_t` sum
of header and announced length does not exceed what is unread. -/
def Announced (bytes : List UInt8) : Prop :=
  12 ≤ bytes.length ∧ (headerSize + Packet.lengthField bytes).toNat ≤ bytes.length

instance (bytes : List UInt8) : Decidable (Announced bytes) := inferInstanceAs (Decidable (_ ∧ _))

/-- `isComplet` answers from the unread bytes alone and leaves the message as it was. -/
theorem isComplet_run (valid : Valid message) :
    isComplet.run message = .ok (decide (Announced message.unread)) message := by
  have size : message.buffer.size.toNat = message.unread.length := DataBuffer.size_toNat valid
  by_cases short : message.unread.length < 12
  · have tooSmall : message.buffer.size < headerSize := by
      rw [UInt64.lt_iff_toNat_lt, size]
      exact short
    have missing : ¬ Announced message.unread := by
      rintro ⟨header, _⟩
      omega
    simp [isComplet, tooSmall, missing]
  · have enough : ¬ message.buffer.size < headerSize := by
      rw [UInt64.lt_iff_toNat_lt, size]
      exact short
    obtain ⟨readsType, readsSize⟩ := header_run valid (by omega)
    have undone : (onBuffer (DataBuffer.decreaseCursor headerSize)).run (message.advance 12) =
        .ok () message :=
      onBuffer_returns (@DataBuffer.decreaseCursor_run _ 12 valid (by unfold unread at short; omega))
    have compared : headerSize + Packet.lengthField message.unread ≤ message.buffer.size ↔
        Announced message.unread := by
      rw [UInt64.le_iff_toNat_le, size]
      exact ⟨fun fits => ⟨by omega, fits⟩, And.right⟩
    simp [isComplet, enough, readsType, readsSize, undone, compared]

theorem serialized_eq (valid : Valid message) : message.serialized = message.packet.encode := by
  have size : message.buffer.size = UInt64.ofNat message.buffer.unread.length := by
    rw [← DataBuffer.size_toNat valid, UInt64.ofNat_toNat]
  rw [serialized, Packet.encode, packet, size]

/-- A message whose frame a vector can hold is serialized as its packet's encoding. -/
theorem getSerializedData_run (valid : Valid message) (fits : (headerSize + message.buffer.size).toNat ≤ maxSize) :
    getSerializedData.run message = .ok message.serialized message := by
  rw [getSerializedData, EStateM.run_bind, EStateM.run_get]
  simp only [Nat.not_lt.mpr fits, ↓reduceIte, EStateM.run_bind, onBuffer_returns (DataBuffer.data_run valid)]
  rfl

/-- The vector refuses a frame that is longer. -/
theorem getSerializedData_refuses (long : maxSize < (headerSize + message.buffer.size).toNat) :
    getSerializedData.run message = .error (.thrown .lengthError) message := by
  rw [getSerializedData, EStateM.run_bind, EStateM.run_get]
  simp only [long, ↓reduceIte]
  rfl

/-- As long as the cursor is inside, serializing a message has a meaning. -/
theorem getSerializedData_defined (valid : Valid message) :
    (∃ frame, getSerializedData.run message = .ok frame message) ∨
      getSerializedData.run message = .error (.thrown .lengthError) message := by
  rcases Nat.lt_or_ge maxSize (headerSize + message.buffer.size).toNat with long | fits
  · exact Or.inr (getSerializedData_refuses long)
  · exact Or.inl ⟨_, getSerializedData_run valid fits⟩

/-- A message that could be serialized at all has its cursor inside, and its
frame is its packet's encoding. -/
theorem getSerializedData_returns (ran : getSerializedData.run message = .ok frame after) :
    message.Valid ∧ after = message ∧ frame = message.packet.encode := by
  rcases Nat.lt_or_ge maxSize (headerSize + message.buffer.size).toNat with long | fits
  · cases (getSerializedData_refuses long).symm.trans ran
  by_cases valid : message.Valid
  · cases (getSerializedData_run valid fits).symm.trans ran
    exact ⟨valid, rfl, serialized_eq valid⟩
  · have beyond : ¬ message.buffer.cursor ≤ message.buffer.buffer.size := by
      rw [UInt64.le_iff_toNat_le, ByteVector.size_toNat]
      exact valid
    have noRange : (onBuffer DataBuffer.data).run message = .error .undefined message :=
      onBuffer_stops (by simp [DataBuffer.data, beyond])
    rw [getSerializedData, EStateM.run_bind, EStateM.run_get] at ran
    simp only [Nat.not_lt.mpr fits, ↓reduceIte, EStateM.run_bind, noRange] at ran
    cases ran

/-- What a sender makes of these messages, frame by frame. -/
def Frames (messages : List Message) (frames : List (List UInt8)) : Prop :=
  List.Forall₂ (fun message frame => getSerializedData.run message = .ok frame message) messages frames

/-- The frames of a list of messages are the encodings of what the messages say. -/
theorem frames_encode (sent : Frames messages frames) :
    frames = (messages.map packet).map Packet.encode := by
  induction sent with
  | nil => rfl
  | cons ran rest ih => rw [List.map_cons, List.map_cons, ← ih, (getSerializedData_returns ran).2.2]

theorem frames_eq (sent : Frames messages frames) :
    frames.flatten = Packet.codec.encodeAll (messages.map packet) := by
  rw [frames_encode sent, ← List.flatMap_def]
  rfl

end Message
end Libftpp
