import Libftpp.Client

/-! What a client makes of the bytes it receives. Every reception puts them
behind the unread bytes of the partial message; the decode loop then takes off
what is complete. A stream of genuine frames is therefore decoded alike however
it is cut. The partial message outlives the connection it was received on. -/
namespace Libftpp
open Program World StreamDecoding

namespace Client

/-! ### One call -/

theorem onTmpMsg_returns {operation : Program Exn Message α} {world : World Client}
    (ran : operation.run world.object.tmpMsg = .ok value changed) :
    (onTmpMsg operation).run world =
      .ok value { world with object := { world.object with tmpMsg := changed } } :=
  zoom_returns ran

theorem onInbox_returns {operation : Program Exn Inbox α} {world : World Client}
    (ran : operation.run ⟨world.object.tmpMsg, world.object.msgs⟩ = .ok value inbox) :
    (onInbox operation).run world = .ok value
      { world with object := { world.object with tmpMsg := inbox.pending, msgs := inbox.msgs } } :=
  zoom_returns ran

theorem onInbox_stops {operation : Program Exn Inbox α} {world : World Client}
    (ran : operation.run ⟨world.object.tmpMsg, world.object.msgs⟩ = .error halt inbox) :
    (onInbox operation).run world = .error halt
      { world with object := { world.object with tmpMsg := inbox.pending, msgs := inbox.msgs } } :=
  zoom_stops ran

/-- What `disconnect` leaves. -/
def disconnected (world : World Client) : World Client :=
  { world with
    object := { world.object with fd := -1 }
    log := world.log ++ if world.object.fd > 0 then [.closed world.object.fd] else [] }

theorem disconnect_run (world : World Client) : disconnect.run world = .ok () (disconnected world) := by
  rw [disconnect, EStateM.run_bind, EStateM.run_get]
  by_cases opened : world.object.fd > 0 <;> simp [opened, disconnected]

/-- The bytes of all chunks end up behind the unread ones. -/
theorem receiveChunks_run (valid : world.object.tmpMsg.Valid)
    (fits : world.object.tmpMsg.buffer.buffer.bytes.length + (chunks.flatMap Chunk.bytes).length ≤ maxSize) :
    ∃ tmpMsg, (receiveChunks chunks).run world = .ok ()
        { world with
          object := { world.object with tmpMsg }
          log := world.log ++ chunks.map fun chunk => .received world.object.fd chunk.bytes } ∧
      tmpMsg.Valid ∧ tmpMsg.unread = world.object.tmpMsg.unread ++ chunks.flatMap Chunk.bytes ∧
      tmpMsg.buffer.buffer.bytes =
        world.object.tmpMsg.buffer.buffer.bytes ++ chunks.flatMap Chunk.bytes := by
  induction chunks generalizing world with
  | nil => exact ⟨world.object.tmpMsg, by simp [receiveChunks], valid, by simp, by simp⟩
  | cons chunk chunks ih =>
    rw [List.flatMap_cons, List.length_append] at fits
    obtain ⟨grown, appended, holds, behind, whole, _⟩ :=
      DataBuffer.append_run valid chunk.bytes [] (by omega)
    rw [List.append_nil] at appended
    have fed := @onTmpMsg_returns _ _ _ _ { world with log := world.log ++ [.received world.object.fd chunk.bytes] }
      ((@Message.onBuffer_returns _ _ _ world.object.tmpMsg) appended)
    obtain ⟨tmpMsg, ran, after, unread, bytes⟩ := @ih { world with
        object := { world.object with tmpMsg := { world.object.tmpMsg with buffer := grown } }
        log := world.log ++ [.received world.object.fd chunk.bytes] } holds (by
      simp only [whole, List.length_append]
      omega)
    refine ⟨tmpMsg, ?_, after, ?_, ?_⟩
    · rw [receiveChunks, EStateM.run_bind, EStateM.run_get]
      simp only [EStateM.run_bind, run_emit, Message.appendBytes, fed, ran, List.map_cons, List.append_assoc,
        List.singleton_append]
    · rw [unread, List.flatMap_cons, ← List.append_assoc]
      exact congrArg (· ++ _) behind
    · rw [bytes, List.flatMap_cons, ← List.append_assoc]
      exact congrArg (· ++ _) whole

section Reception
variable [Platform]

theorem networkError_run (errorMsg : String) (world : World Client) :
    (networkError errorMsg).run world = .error (.thrown (.runtimeError
      (errorMsg ++ Platform.strerror world.errno ++ " (errno: " ++ toString world.errno ++ ")")))
      (disconnected world) := by
  rw [networkError, EStateM.run_bind, disconnect_run]
  rfl

/-- The decode loop queues what the unread bytes hold. -/
theorem decodeMessages_returns (valid : world.object.tmpMsg.Valid)
    (reads : Inbox.extractBytes (world.object.tmpMsg.unread.length + 1) world.object.tmpMsg.unread =
      .ok (packets, left)) :
    ∃ tmpMsg new, decodeMessages.run world = .ok ()
        { world with
          object := { world.object with tmpMsg, msgs := world.object.msgs ++ new }
          log := world.log ++ [.queued world.object.fd new] } ∧
      tmpMsg.Valid ∧ tmpMsg.unread = left ∧
      tmpMsg.buffer.buffer = world.object.tmpMsg.buffer.buffer ∧
      new.map Message.packet = packets ∧ ∀ message ∈ new, message.Untouched := by
  obtain ⟨tmpMsg, new, ran, holds, unread, same, said, sound⟩ :=
    @Inbox.extractLoop_returns _ _ _ _ ⟨world.object.tmpMsg, world.object.msgs⟩ none valid reads
  have looped := onInbox_returns ((Inbox.extractMessages_run none _).trans ran)
  refine ⟨tmpMsg, new, ?_, holds, unread, same, said, fun message member => (sound message member).2⟩
  rw [decodeMessages, EStateM.run_bind, EStateM.run_get]
  simp only [EStateM.run_bind, looped, EStateM.run_get, run_emit, List.drop_left]

theorem decodeMessages_fails (valid : world.object.tmpMsg.Valid)
    (reads : Inbox.extractBytes (world.object.tmpMsg.unread.length + 1) world.object.tmpMsg.unread =
      .error halt) :
    ∃ after, decodeMessages.run world = .error halt after := by
  obtain ⟨after, ran⟩ :=
    @Inbox.extractLoop_fails _ _ _ ⟨world.object.tmpMsg, world.object.msgs⟩ none valid reads
  have looped := onInbox_stops ((Inbox.extractMessages_run none _).trans ran)
  exact ⟨_, bind_stops.mpr (Or.inr ⟨world, world, rfl, bind_stops.mpr (Or.inl looped)⟩)⟩

/-- After the last chunk: nothing more for now, and what has come is decoded. -/
theorem receiveMessage_blocked {middle : World Client} (again : script.last.WouldBlock)
    (received : (receiveChunks script.chunks).run world = .ok () middle) :
    (receiveMessage script).run world = decodeMessages.run { middle with errno := EAGAIN } := by
  have last : script.last = .failed EAGAIN := by
    rcases again with last | last <;> exact last
  rw [receiveMessage, EStateM.run_bind, received]
  simp only [last, EStateM.run_bind, run_setErrno]
  rfl

theorem receiveMessage_again (valid : world.object.tmpMsg.Valid)
    (fits : world.object.tmpMsg.buffer.buffer.bytes.length + script.bytes.length ≤ maxSize)
    (again : script.last.WouldBlock)
    (reads : Inbox.extractBytes ((world.object.tmpMsg.unread ++ script.bytes).length + 1)
      (world.object.tmpMsg.unread ++ script.bytes) = .ok (packets, left)) :
    ∃ pending new, (receiveMessage script).run world = .ok ()
        { object := { world.object with tmpMsg := pending, msgs := world.object.msgs ++ new }
          errno := EAGAIN
          log := world.log ++ (script.chunks.map fun chunk => .received world.object.fd chunk.bytes) ++
            [.queued world.object.fd new] } ∧
      pending.Valid ∧ pending.unread = left ∧
      pending.buffer.buffer.bytes = world.object.tmpMsg.buffer.buffer.bytes ++ script.bytes ∧
      new.map Message.packet = packets ∧ ∀ message ∈ new, message.Untouched := by
  obtain ⟨tmpMsg, received, holds, unread, whole⟩ := receiveChunks_run valid fits
  obtain ⟨pending, new, decoded, pendingHolds, tail, same, said, sound⟩ := @decodeMessages_returns _ _ _ {
      object := { world.object with tmpMsg }
      errno := EAGAIN
      log := world.log ++ script.chunks.map fun chunk => .received world.object.fd chunk.bytes }
    holds (unread ▸ reads)
  refine ⟨pending, new, ?_, pendingHolds, tail, (congrArg ByteVector.bytes same).trans whole, said, sound⟩
  exact (receiveMessage_blocked again received).trans decoded

theorem receiveMessage_again_fails (valid : world.object.tmpMsg.Valid)
    (fits : world.object.tmpMsg.buffer.buffer.bytes.length + script.bytes.length ≤ maxSize)
    (again : script.last.WouldBlock)
    (reads : Inbox.extractBytes ((world.object.tmpMsg.unread ++ script.bytes).length + 1)
      (world.object.tmpMsg.unread ++ script.bytes) = .error halt) :
    ∃ after, (receiveMessage script).run world = .error halt after := by
  obtain ⟨tmpMsg, received, holds, unread, _⟩ := receiveChunks_run valid fits
  obtain ⟨after, stopped⟩ := @decodeMessages_fails _ _ {
      object := { world.object with tmpMsg }
      errno := EAGAIN
      log := world.log ++ script.chunks.map fun chunk => .received world.object.fd chunk.bytes }
    holds (unread ▸ reads)
  exact ⟨after, (receiveMessage_blocked again received).trans stopped⟩

/-- After the last chunk: end-of-file. Nothing is decoded. -/
theorem receiveMessage_endOfFile (valid : world.object.tmpMsg.Valid)
    (fits : world.object.tmpMsg.buffer.buffer.bytes.length + script.bytes.length ≤ maxSize)
    (ends : script.last = .endOfFile) :
    ∃ pending, (receiveMessage script).run world = .ok () (disconnected
        { world with
          object := { world.object with tmpMsg := pending }
          log := world.log ++ script.chunks.map fun chunk => .received world.object.fd chunk.bytes }) ∧
      pending.Valid ∧ pending.unread = world.object.tmpMsg.unread ++ script.bytes ∧
      pending.buffer.buffer.bytes = world.object.tmpMsg.buffer.buffer.bytes ++ script.bytes := by
  obtain ⟨pending, received, holds, unread, whole⟩ := receiveChunks_run valid fits
  refine ⟨pending, ?_, holds, unread, whole⟩
  rw [receiveMessage, EStateM.run_bind, received]
  simp only [ends]
  exact disconnect_run _

/-- After the last chunk: an error. Nothing is decoded, and some errors are thrown. -/
theorem receiveMessage_failed (valid : world.object.tmpMsg.Valid)
    (fits : world.object.tmpMsg.buffer.buffer.bytes.length + script.bytes.length ≤ maxSize)
    (failed : script.last = .failed code) (hard : ¬ script.last.WouldBlock) :
    ∃ pending, Leaves (receiveMessage script) world (disconnected
        { object := { world.object with tmpMsg := pending }
          errno := code
          log := world.log ++ script.chunks.map fun chunk => .received world.object.fd chunk.bytes }) ∧
      pending.Valid ∧ pending.unread = world.object.tmpMsg.unread ++ script.bytes ∧
      pending.buffer.buffer.bytes = world.object.tmpMsg.buffer.buffer.bytes ++ script.bytes := by
  obtain ⟨pending, received, holds, unread, whole⟩ := receiveChunks_run valid fits
  refine ⟨pending, ?_, holds, unread, whole⟩
  have other : code ≠ EAGAIN ∧ code ≠ EWOULDBLOCK := by
    rw [RecvEnd.WouldBlock, failed] at hard
    simpa using hard
  unfold Leaves
  rw [receiveMessage, EStateM.run_bind, received]
  simp only [failed, EStateM.run_bind, run_setErrno, other, ne_eq, not_false_eq_true, and_self, ↓reduceIte]
  by_cases lost : code = ENOTCONN ∨ code = ECONNRESET ∨ code = EPIPE ∨ code = EBADF
  · rw [if_pos lost]
    exact Or.inl ⟨(), disconnect_run _⟩
  · rw [if_neg lost]
    exact Or.inr ⟨_, networkError_run _ _⟩

/-! ### A stream of frames -/

/-- Successive calls, each of which ends because nothing more is there. -/
def receiveCalls (calls : List (List (Chunk MAX_READ_BUFFER))) : Call Client Unit :=
  match calls with
  | [] => pure ()
  | chunks :: rest => do
    receiveMessage ⟨chunks, .failed EAGAIN⟩
    receiveCalls rest

/-- The calls together decode what all their bytes drain to. -/
theorem receiveCalls_drains (valid : world.object.tmpMsg.Valid)
    (stuck : Packet.codec.next world.object.tmpMsg.unread = none)
    (fits : world.object.tmpMsg.buffer.buffer.bytes.length +
      (calls.flatten.flatMap Chunk.bytes).length ≤ maxSize)
    (orderly : Inbox.Orderly (world.object.tmpMsg.unread ++ calls.flatten.flatMap Chunk.bytes)) :
    ∃ after pending new, (receiveCalls calls).run world = .ok () after ∧
      after.object = { world.object with tmpMsg := pending, msgs := world.object.msgs ++ new } ∧
      pending.Valid ∧
      pending.buffer.buffer.bytes =
        world.object.tmpMsg.buffer.buffer.bytes ++ calls.flatten.flatMap Chunk.bytes ∧
      (new.map Message.packet, pending.unread) =
        Packet.codec.drain (world.object.tmpMsg.unread ++ calls.flatten.flatMap Chunk.bytes) ∧
      ∀ message ∈ new, message.Untouched := by
  induction calls generalizing world with
  | nil =>
    refine ⟨world, world.object.tmpMsg, [], rfl, by simp, valid, by simp, ?_, List.forall_mem_nil _⟩
    simpa using (Packet.codec.drain_stuck stuck).symm
  | cons chunks calls ih =>
    rw [List.flatten_cons, List.flatMap_append] at fits orderly ⊢
    rw [List.length_append] at fits
    rw [← List.append_assoc] at orderly
    have reads := Inbox.extractBytes_orderly orderly.before (Nat.lt_succ_self _)
    obtain ⟨pending, new, received, holds, left, whole, said, untouched⟩ :=
      @receiveMessage_again _ _ _ ⟨chunks, .failed EAGAIN⟩ world valid
        (Nat.le_trans (Nat.add_le_add_left (Nat.le_add_right _ _) _) fits) (Or.inl rfl) reads
    change pending.buffer.buffer.bytes = _ ++ chunks.flatMap Chunk.bytes at whole
    obtain ⟨shape, stuckAfter⟩ := Packet.codec.drain_spec (world.object.tmpMsg.unread ++ chunks.flatMap Chunk.bytes)
    obtain ⟨after, last, newer, ran, object, lastHolds, bytes, drained, others⟩ := @ih {
        object := { world.object with tmpMsg := pending, msgs := world.object.msgs ++ new }
        errno := EAGAIN
        log := world.log ++ (chunks.map fun chunk => .received world.object.fd chunk.bytes) ++
          [.queued world.object.fd new] } holds (left ▸ stuckAfter) (by
      change pending.buffer.buffer.bytes.length + _ ≤ maxSize
      rw [whole, List.length_append]
      omega) (by
      rw [shape, List.append_assoc] at orderly
      change Inbox.Orderly (pending.unread ++ _)
      rw [left]
      exact orderly.behindAll)
    refine ⟨after, last, new ++ newer, ?_, ?_, lastHolds, ?_, ?_, List.forall_mem_append.mpr ⟨untouched, others⟩⟩
    · rw [receiveCalls, EStateM.run_bind, received]
      exact ran
    · rw [object]
      simp only [List.append_assoc]
    · rw [bytes, whole, List.append_assoc]
    · change _ = Packet.codec.drain (pending.unread ++ _) at drained
      rw [left] at drained
      rw [← List.append_assoc, Packet.codec.drain_append, ← drained, List.map_append, said]

/-- Whatever the cuts, a fresh client has queued after each call exactly the
messages whose frames have fully arrived, in order, and keeps unread exactly
the beginning of the next frame. -/
theorem stream_decodes_exactly (sent : Message.Frames messages frames)
    (small : frames.flatten.length < 2 ^ 63) (fresh : world.object.tmpMsg = .new)
    (stream : calls.flatten.flatMap Chunk.bytes ++ later = frames.flatten) :
    ∃ after new missing, (receiveCalls calls).run world = .ok () after ∧
      after.object.msgs = world.object.msgs ++ new ∧
      messages.map Message.packet = new.map Message.packet ++ missing ∧
      after.object.tmpMsg.unread ++ later = Packet.codec.encodeAll missing ∧
      ∀ packet ∈ missing.head?, after.object.tmpMsg.unread.length < packet.encode.length := by
  rw [Message.frames_eq sent] at small stream
  have arrived : (calls.flatten.flatMap Chunk.bytes).length ≤ maxSize := by
    have size := congrArg List.length stream
    rw [List.length_append] at size
    unfold maxSize
    omega
  obtain ⟨after, pending, new, ran, object, _, _, drained, _⟩ := @receiveCalls_drains _ calls world
    (by rw [fresh]; exact DataBuffer.empty_valid) (by rw [fresh]; exact Packet.codec.next_nil)
    (by rw [fresh]; exact (Nat.zero_add _).symm ▸ arrived)
    (by rw [fresh]; exact Inbox.orderly_of_stream stream small)
  obtain ⟨missing, split, rest, partly⟩ := Packet.codec.drain_arrived _ _ _ stream
  have same : (new.map Message.packet, after.object.tmpMsg.unread) =
      Packet.codec.drain (calls.flatten.flatMap Chunk.bytes) := by
    rw [object, drained, fresh]
    rfl
  rw [← same] at split rest partly
  exact ⟨after, new, missing, ran, by rw [object], split, rest, partly⟩

end Reception

section Witnesses

attribute [local instance] Platform.littleEndian

/-- A frame of type 7 with a payload of one byte, cut inside its header. -/
theorem cut_frame_decodes :
    ∃ after new missing,
      (receiveCalls [[⟨[7, 0, 0], by decide, by decide⟩],
        [⟨[0, 1, 0, 0, 0, 0, 0, 0, 0, 42], by decide, by decide⟩]]).run ⟨.new, 0, []⟩ = .ok () after ∧
      after.object.msgs = [] ++ new ∧
      [(⟨none, 7, ⟨⟨[42], by decide⟩, 0⟩⟩ : Message)].map Message.packet =
        new.map Message.packet ++ missing ∧
      after.object.tmpMsg.unread ++ [] = Packet.codec.encodeAll missing ∧
      ∀ packet ∈ missing.head?, after.object.tmpMsg.unread.length < packet.encode.length :=
  (@stream_decodes_exactly _ _ [[7, 0, 0, 0, 1, 0, 0, 0, 0, 0, 0, 0, 42]])
    (.cons rfl .nil) (by decide) rfl rfl

end Witnesses

end Client
end Libftpp
