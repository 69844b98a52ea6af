import Libftpp.Message

/-! The loop `while (isComplet())` that `Server::_receiveClientMsg` and
`Client::_receiveMessage` both run over the bytes they have received. What it
does is determined by the unread bytes alone, so it is first read off them
(`front`, `extractBytes`) and the loop is shown to follow. The completeness test
adds the header size to a length the peer chose, in `size_t`: lengths of
2^64 - 12 and more wrap it, and then the loop copies or moves by a length that
is not there. Everything else is the draining of the packet codec. -/
namespace Libftpp
open Program StreamDecoding

/-- What a receiver keeps between two calls of `recv`: the partial message
(`_partialMsgs[fd]`, `_tmpMsg`) and the messages read so far (`_msgs`). -/
@[ext] structure Inbox where
  pending : Message
  msgs : List Message

namespace Inbox

/-- Runs an operation of the partial message. -/
def onPending (operation : Program Exn Message α) : Program Exn Inbox α :=
  zoom (·.pending) (fun inbox pending => { inbox with pending }) operation

/-- `Message newMsg(fd, msgType)` in the server, `Message newMsg(msgType)` in the client. -/
def newMsg (sender : Option Int) (msgType : Int32) : Message :=
  match sender with
  | some fd => .ofFdType fd msgType
  | none => .ofType msgType

/-- `newMsg.setMessageFd(fd)`, which only the server calls. -/
def stamp (sender : Option Int) (message : Message) : Message :=
  match sender with
  | some fd => message.setMessageFd fd
  | none => message

theorem onPending_returns {operation : Program Exn Message α}
    (ran : operation.run inbox.pending = .ok value after) :
    (onPending operation).run inbox = .ok value { inbox with pending := after } :=
  zoom_returns ran

theorem newMsg_eq (sender : Option Int) (msgType : Int32) :
    newMsg sender msgType = ⟨sender, msgType, .empty⟩ := by
  cases sender <;> rfl

theorem stamp_eq (owned : message.fd = sender) : stamp sender message = message := by
  cases sender with
  | none => rfl
  | some fd => exact Message.ext owned.symm rfl rfl

/-- Behind the header lies what a pass copies from. -/
theorem advance_header_unread {inbox : Inbox} (valid : inbox.pending.Valid) (header : 12 ≤ inbox.pending.unread.length) :
    (inbox.pending.advance 12).buffer.unread = inbox.pending.unread.drop 12 :=
  DataBuffer.advance_unread valid header

section Loop
variable [Platform]

/-- The body of the loop. -/
def extractMessage (sender : Option Int) : Program Exn Inbox Unit := do
  let msgType ← onPending Message.readInt
  let dataSize ← onPending Message.readSize
  let data ← onPending (Message.onBuffer DataBuffer.data)
  let message ← withLocal (newMsg sender msgType) (Message.appendBytes data.data dataSize)
  onPending (Message.incr_cursor dataSize)
  modify fun inbox => { inbox with msgs := inbox.msgs ++ [stamp sender message] }

/-- The loop, given up after `fuel` rounds. -/
def extractLoop (sender : Option Int) (fuel : Nat) : Program Exn Inbox Unit :=
  whileLoop (onPending Message.isComplet) (extractMessage sender) fuel

/-- The loop. One round more than there are unread bytes is enough: a run that
has not ended by then does not end (`extractBytes_enough`). -/
def extractMessages (sender : Option Int) : Program Exn Inbox Unit := do
  let inbox ← get
  extractLoop sender (inbox.pending.unread.length + 1)

/-! ### The loop as a function of the unread bytes -/

/-- What one test and one pass through the body come to. -/
inductive Front where
  | waits
  | yields (packet : Packet) (rest : List UInt8)
  | overruns

/-- A wrapped test lets the body run on a payload that is not there. With
unread bytes behind the header the copy runs over their end; without any,
`data()` is a null pointer, nothing is copied, and the cursor sum wraps back
to before the end of the header. -/
def front (bytes : List UInt8) : Front :=
  match Packet.codec.next bytes with
  | some (packet, rest) => .yields packet rest
  | none =>
    if ¬ Message.Announced bytes then .waits
    else if bytes.length = 12 then
      .yields ⟨Packet.typeField bytes, [], Packet.nil_fits⟩
        (bytes.drop (headerSize + Packet.lengthField bytes).toNat)
    else .overruns

/-- The packets the loop reads and the bytes it leaves, or how it fails. -/
def extractBytes : Nat → List UInt8 → Except (Halt Exn) (List Packet × List UInt8)
  | 0, _ => .error .diverges
  | fuel + 1, bytes =>
    match front bytes with
    | .waits => .ok ([], bytes)
    | .yields packet rest =>
      match extractBytes fuel rest with
      | .ok (packets, left) => .ok (packet :: packets, left)
      | .error halt => .error halt
    | .overruns => .error .undefined

/-! ### The loop follows -/

theorem isComplet_onPending (valid : inbox.pending.Valid) :
    (onPending Message.isComplet).run inbox =
      .ok (decide (Message.Announced inbox.pending.unread)) inbox :=
  onPending_returns (Message.isComplet_run valid)

/-- The header reads and the copy of the data, up to where the announced length
is first used. -/
theorem extractMessage_header (valid : inbox.pending.Valid) (header : 12 ≤ inbox.pending.unread.length) :
    (extractMessage sender).run inbox =
      (do
        let message ← withLocal (newMsg sender (Packet.typeField inbox.pending.unread))
          (Message.appendBytes (inbox.pending.advance 12).buffer.unreadVector.data
            (Packet.lengthField inbox.pending.unread))
        onPending (Message.incr_cursor (Packet.lengthField inbox.pending.unread))
        modify fun inbox => { inbox with msgs := inbox.msgs ++ [stamp sender message] }
        : Program Exn Inbox Unit).run { inbox with pending := inbox.pending.advance 12 } := by
  obtain ⟨readsType, readsSize⟩ := Message.header_run valid header
  have after : (inbox.pending.advance 12).Valid := DataBuffer.advance_valid valid header
  have copies := Message.onBuffer_returns (DataBuffer.data_run after)
  have first := onPending_returns readsType
  have second := (@onPending_returns _ _ _ { inbox with pending := inbox.pending.advance 4 }) readsSize
  have third := (@onPending_returns _ _ _ { inbox with pending := inbox.pending.advance 12 }) copies
  rw [extractMessage]
  simp only [EStateM.run_bind, first, second, third]

/-- The pass returns when the copy and the move of the cursor do. -/
theorem extractMessage_returns (valid : inbox.pending.Valid) (header : 12 ≤ inbox.pending.unread.length)
    (copied : (DataBuffer.append (inbox.pending.advance 12).buffer.unreadVector.data
      (Packet.lengthField inbox.pending.unread)).run .empty = .ok () copy)
    (moved : (DataBuffer.increaseCursor (Packet.lengthField inbox.pending.unread)).run
      (inbox.pending.advance 12).buffer = .ok () buf) :
    (extractMessage sender).run inbox =
      .ok () ⟨{ inbox.pending with buffer := buf },
        inbox.msgs ++ [⟨sender, Packet.typeField inbox.pending.unread, copy⟩]⟩ := by
  have makes := (@withLocal_returns _ _ _ _ _ _ _ ({ inbox with pending := inbox.pending.advance 12 } : Inbox))
    ((@Message.onBuffer_returns _ _ _ ⟨sender, Packet.typeField inbox.pending.unread, .empty⟩) copied)
  have moves := (@onPending_returns _ _ _ { inbox with pending := inbox.pending.advance 12 })
    (Message.onBuffer_returns moved)
  rw [extractMessage_header valid header, newMsg_eq]
  simp only [Message.appendBytes, Message.incr_cursor, EStateM.run_bind, makes, moves, EStateM.run_modify]
  rw [@stamp_eq _ ⟨sender, _, copy⟩ rfl]
  rfl

/-- The pass stops where the copy does. -/
theorem extractMessage_stops (valid : inbox.pending.Valid) (header : 12 ≤ inbox.pending.unread.length)
    (stopped : (DataBuffer.append (inbox.pending.advance 12).buffer.unreadVector.data
      (Packet.lengthField inbox.pending.unread)).run .empty = .error halt copy) :
    (extractMessage sender).run inbox = .error halt { inbox with pending := inbox.pending.advance 12 } := by
  have fails := (@withLocal_stops _ _ _ _ _ _ _ ({ inbox with pending := inbox.pending.advance 12 } : Inbox))
    ((@Message.onBuffer_stops _ _ _ ⟨sender, Packet.typeField inbox.pending.unread, .empty⟩) stopped)
  rw [extractMessage_header valid header, newMsg_eq]
  simp only [Message.appendBytes, EStateM.run_bind, fails]

/-- A packet that is there in full is copied, and nothing but its bytes is read. -/
theorem extractMessage_copies (sender : Option Int) (valid : inbox.pending.Valid)
    (taken : Packet.codec.next inbox.pending.unread = some (packet, rest)) :
    ∃ message, (extractMessage sender).run inbox =
        .ok () ⟨inbox.pending.advance (12 + packet.payload.length), inbox.msgs ++ [message]⟩ ∧
      message.packet = packet ∧ message.fd = sender ∧ message.Untouched := by
  have shape : inbox.pending.unread = packet.encode ++ rest := Packet.encode_of_next taken
  have size : inbox.pending.unread.length = 12 + packet.payload.length + rest.length := by
    rw [shape, List.length_append, Packet.encode_length]
  have bound : inbox.pending.unread.length < 2 ^ 63 := inbox.pending.buffer.unread_lt
  have header : 12 ≤ inbox.pending.unread.length := by omega
  have announced : Packet.lengthField inbox.pending.unread = UInt64.ofNat packet.payload.length := by
    rw [shape, Packet.lengthField_encode]
  have payload : (inbox.pending.advance 12).buffer.unread = packet.payload ++ rest := by
    rw [advance_header_unread valid header, shape, Packet.encode, List.append_assoc,
      List.drop_left' (by simp)]
  have fits : DataBuffer.empty.buffer.bytes.length + packet.payload.length ≤ maxSize := by
    change 0 + packet.payload.length ≤ 2 ^ 63 - 1
    omega
  obtain ⟨copy, copied, untouched, copyUnread⟩ :=
    DataBuffer.append_data_run DataBuffer.empty_valid (inbox.pending.advance 12).buffer.unreadVector payload fits
  have sum : (headerSize + Packet.lengthField inbox.pending.unread).toNat = 12 + packet.payload.length := by
    rw [UInt64.toNat_add, announced, Packet.payload_length_toNat, headerSize_toNat]
    omega
  have inside : (headerSize + Packet.lengthField inbox.pending.unread).toNat ≤ inbox.pending.unread.length := by
    omega
  have moved := DataBuffer.increaseCursor_run valid 12 (Packet.lengthField inbox.pending.unread) inside
  change _ = EStateM.Result.ok () (inbox.pending.buffer.advance
    (headerSize + Packet.lengthField inbox.pending.unread).toNat) at moved
  rw [sum] at moved
  rw [← announced] at copied
  refine ⟨_, extractMessage_returns valid header copied moved, ?_, rfl, untouched⟩
  have type : Packet.typeField inbox.pending.unread = packet.type := by
    rw [shape, Packet.typeField_encode]
  exact Packet.ext type copyUnread

/-- A wrapped length with nothing behind the header: no byte is copied, and the
cursor ends up where the wrapped sum points. -/
theorem extractMessage_wraps (sender : Option Int) (valid : inbox.pending.Valid)
    (header : inbox.pending.unread.length = 12)
    (announced : Message.Announced inbox.pending.unread) :
    ∃ message, (extractMessage sender).run inbox =
        .ok () ⟨inbox.pending.advance (headerSize + Packet.lengthField inbox.pending.unread).toNat,
          inbox.msgs ++ [message]⟩ ∧
      message.packet = ⟨Packet.typeField inbox.pending.unread, [], Packet.nil_fits⟩ ∧
      message.fd = sender ∧ message.Untouched := by
  have enough : 12 ≤ inbox.pending.unread.length := by omega
  have nothing : (inbox.pending.advance 12).buffer.unreadVector.data = none := by
    have empty : (inbox.pending.advance 12).buffer.unread = [] := by
      rw [advance_header_unread valid enough]
      exact List.drop_eq_nil_of_le (by omega)
    simp [ByteVector.data, DataBuffer.unreadVector, empty]
  have copied : (DataBuffer.append (inbox.pending.advance 12).buffer.unreadVector.data
      (Packet.lengthField inbox.pending.unread)).run .empty = .ok () .empty := by
    rw [nothing]
    rfl
  have moved := DataBuffer.increaseCursor_run valid 12 (Packet.lengthField inbox.pending.unread) announced.2
  exact ⟨_, extractMessage_returns valid enough copied moved, rfl, rfl, rfl⟩

/-- A wrapped length with unread bytes behind the header: the copy runs over
the end of the vector. -/
theorem extractMessage_overruns (sender : Option Int) (valid : inbox.pending.Valid)
    (more : 12 < inbox.pending.unread.length)
    (missing : inbox.pending.unread.length < 12 + (Packet.lengthField inbox.pending.unread).toNat) :
    ∃ after, (extractMessage sender).run inbox = .error .undefined after := by
  have behind : (inbox.pending.advance 12).buffer.unread = inbox.pending.unread.drop 12 :=
    advance_header_unread valid (by omega)
  have readable : (inbox.pending.advance 12).buffer.unreadVector.data =
      some (inbox.pending.unread.drop 12) := by
    have some : inbox.pending.unread.drop 12 ≠ [] := by
      intro empty
      have := List.drop_eq_nil_iff.mp empty
      omega
    simp [ByteVector.data, DataBuffer.unreadVector, behind, some]
  refine ⟨_, @extractMessage_stops _ _ .empty _ _ valid (by omega) ?_⟩
  have nonzero : Packet.lengthField inbox.pending.unread ≠ 0 := by
    intro zero
    rw [zero] at missing
    change _ < 12 + 0 at missing
    omega
  have short : (inbox.pending.unread.drop 12).length < (Packet.lengthField inbox.pending.unread).toNat := by
    rw [List.length_drop]
    omega
  simp only [readable, DataBuffer.append, nonzero, short, ↓reduceIte, run_undefinedBehaviour]

/-! ### The whole loop -/

theorem front_next (taken : Packet.codec.next bytes = some (packet, rest)) :
    front bytes = .yields packet rest := by
  simp [front, taken]

theorem front_waits (missing : ¬ Message.Announced bytes) : front bytes = .waits := by
  have none : Packet.codec.next bytes = none := by
    rw [Packet.codec_next_none]
    by_contra complete
    apply missing
    have exact : (headerSize + Packet.lengthField bytes).toNat ≤ 12 + (Packet.lengthField bytes).toNat := by
      rw [UInt64.toNat_add, headerSize_toNat]
      exact Nat.mod_le _ _
    exact ⟨by omega, by omega⟩
  simp [front, none, missing]

theorem front_wraps (none : Packet.codec.next bytes = none) (announced : Message.Announced bytes)
    (header : bytes.length = 12) :
    front bytes = .yields ⟨Packet.typeField bytes, [], Packet.nil_fits⟩
      (bytes.drop (headerSize + Packet.lengthField bytes).toNat) := by
  simp [front, none, announced, header]

theorem front_overruns (none : Packet.codec.next bytes = none) (announced : Message.Announced bytes)
    (more : bytes.length ≠ 12) : front bytes = .overruns := by
  simp [front, none, announced, more]

/-- What `front` says of the unread bytes is what one test and one pass do. -/
def Follows (sender : Option Int) (inbox : Inbox) : Front → Prop
  | .waits => (onPending Message.isComplet).run inbox = .ok false inbox
  | .yields packet rest => (onPending Message.isComplet).run inbox = .ok true inbox ∧
      ∃ pending message, (extractMessage sender).run inbox = .ok () ⟨pending, inbox.msgs ++ [message]⟩ ∧
        pending.Valid ∧ pending.unread = rest ∧
        pending.buffer.buffer = inbox.pending.buffer.buffer ∧
        message.packet = packet ∧ message.fd = sender ∧ message.Untouched
  | .overruns => (onPending Message.isComplet).run inbox = .ok true inbox ∧
      ∃ after, (extractMessage sender).run inbox = .error .undefined after

theorem front_follows (sender : Option Int) (valid : inbox.pending.Valid) :
    Follows sender inbox (front inbox.pending.unread) := by
  have tested := isComplet_onPending valid
  have bound : inbox.pending.unread.length < 2 ^ 63 := inbox.pending.buffer.unread_lt
  by_cases announced : Message.Announced inbox.pending.unread
  · rw [decide_eq_true announced] at tested
    cases taken : Packet.codec.next inbox.pending.unread with
    | some step =>
      obtain ⟨packet, rest⟩ := step
      rw [front_next taken]
      obtain ⟨message, passed, said, owned, holds⟩ := extractMessage_copies sender valid taken
      have shape : inbox.pending.unread = packet.encode ++ rest := Packet.encode_of_next taken
      have inside : 12 + packet.payload.length ≤ inbox.pending.unread.length := by
        rw [shape, List.length_append, Packet.encode_length]
        omega
      refine ⟨tested, _, message, passed, DataBuffer.advance_valid valid inside, ?_, rfl, said, owned, holds⟩
      refine (DataBuffer.advance_unread valid inside).trans ?_
      change inbox.pending.unread.drop _ = rest
      rw [shape, List.drop_left' packet.encode_length]
    | none =>
      by_cases header : inbox.pending.unread.length = 12
      · rw [front_wraps taken announced header]
        obtain ⟨message, passed, said, owned, holds⟩ := extractMessage_wraps sender valid header announced
        exact ⟨tested, _, message, passed, DataBuffer.advance_valid valid announced.2,
          DataBuffer.advance_unread valid announced.2, rfl, said, owned, holds⟩
      · rw [front_overruns taken announced header]
        have missing := Packet.codec_next_none.mp taken
        have enough := announced.1
        exact ⟨tested, extractMessage_overruns sender valid (by omega) (by omega)⟩
  · rw [front_waits announced]
    rwa [decide_eq_false announced] at tested

/-- The loop returns, with these packets read and these bytes left, or fails,
exactly as its reading off the unread bytes says. -/
theorem extractLoop_follows (sender : Option Int) (fuel : Nat) (valid : inbox.pending.Valid) :
    match extractBytes fuel inbox.pending.unread with
    | .ok (packets, left) => ∃ pending new, (extractLoop sender fuel).run inbox =
          .ok () ⟨pending, inbox.msgs ++ new⟩ ∧
        pending.Valid ∧ pending.unread = left ∧
        pending.buffer.buffer = inbox.pending.buffer.buffer ∧
        new.map Message.packet = packets ∧ ∀ message ∈ new, message.fd = sender ∧ message.Untouched
    | .error halt => ∃ after, (extractLoop sender fuel).run inbox = .error halt after := by
  induction fuel generalizing inbox with
  | zero => exact ⟨inbox, rfl⟩
  | succ fuel ih =>
    have step := front_follows sender valid
    unfold extractBytes
    cases shape : front inbox.pending.unread with
    | waits =>
      rw [shape] at step
      exact ⟨inbox.pending, [], by simpa [extractLoop] using whileLoop_done step, valid, rfl, rfl, rfl, by simp⟩
    | overruns =>
      rw [shape] at step
      obtain ⟨tested, after, stopped⟩ := step
      exact ⟨after, whileLoop_body_stops tested stopped⟩
    | yields packet rest =>
      rw [shape] at step
      obtain ⟨tested, pending, message, passed, holds, left, same, said, owned, sound⟩ := step
      have later := @ih ⟨pending, inbox.msgs ++ [message]⟩ holds
      change pending.unread = rest at left
      simp only [left] at later ⊢
      have goesOn := @whileLoop_round _ _ _ _ _ _ _ fuel tested passed
      cases bytes : extractBytes fuel rest with
      | error halt =>
        simp only [bytes] at later ⊢
        obtain ⟨after, stopped⟩ := later
        exact ⟨after, goesOn.trans stopped⟩
      | ok result =>
        simp only [bytes] at later ⊢
        obtain ⟨final, new, ran, finalHolds, finalLeft, finalSame, saids, sounds⟩ := later
        refine ⟨final, message :: new, ?_, finalHolds, finalLeft, finalSame.trans same, ?_, ?_⟩
        · simpa [extractLoop] using goesOn.trans ran
        · simp [said, saids]
        · intro other member
          rcases List.mem_cons.mp member with rfl | member
          · exact ⟨owned, sound⟩
          · exact sounds other member

theorem extractLoop_returns (sender : Option Int) (valid : inbox.pending.Valid)
    (reads : extractBytes fuel inbox.pending.unread = .ok (packets, left)) :
    ∃ pending new, (extractLoop sender fuel).run inbox = .ok () ⟨pending, inbox.msgs ++ new⟩ ∧
      pending.Valid ∧ pending.unread = left ∧ pending.buffer.buffer = inbox.pending.buffer.buffer ∧
      new.map Message.packet = packets ∧ ∀ message ∈ new, message.fd = sender ∧ message.Untouched := by
  have follows := extractLoop_follows sender fuel valid
  rwa [reads] at follows

theorem extractLoop_fails (sender : Option Int) (valid : inbox.pending.Valid)
    (reads : extractBytes fuel inbox.pending.unread = .error halt) :
    ∃ after, (extractLoop sender fuel).run inbox = .error halt after := by
  have follows := extractLoop_follows sender fuel valid
  rwa [reads] at follows

/-! ### How far the reading goes -/

/-- A loop that a wrapped length sends back to where it was goes on for ever. -/
theorem extractBytes_stuck (back : front bytes = .yields packet bytes) (fuel : Nat) :
    extractBytes fuel bytes = .error .diverges := by
  induction fuel with
  | zero => rfl
  | succ fuel ih => simp [extractBytes, back, ih]

/-- What a pass leaves is either shorter by a whole packet, or what a wrapped
length leaves of a bare header. -/
theorem front_yields (step : front bytes = .yields packet rest) :
    bytes = packet.encode ++ rest ∨
      bytes.length = 12 ∧ packet.payload = [] ∧ ∃ count ≤ 12, rest = bytes.drop count := by
  unfold front at step
  split at step
  · rename_i taken
    cases step
    exact Or.inl (Packet.encode_of_next taken)
  · split at step
    · cases step
    · rename_i announced
      split at step
      · rename_i header
        cases step
        exact Or.inr ⟨header, rfl, _, header ▸ (not_not.mp announced).2, rfl⟩
      · cases step

theorem front_short (short : bytes.length < 12) : front bytes = .waits :=
  front_waits fun announced => absurd announced.1 (Nat.not_le_of_lt short)

/-- More fuel than there are bytes makes no further difference. -/
theorem extractBytes_enough (fuel more : Nat) (bytes : List UInt8) (enough : bytes.length < fuel) :
    extractBytes (fuel + more) bytes = extractBytes fuel bytes := by
  induction fuel generalizing bytes with
  | zero => omega
  | succ fuel ih =>
    rw [Nat.succ_add]
    unfold extractBytes
    cases step : front bytes with
    | waits => rfl
    | overruns => rfl
    | yields packet rest =>
      have same : extractBytes (fuel + more) rest = extractBytes fuel rest := by
        rcases front_yields step with shape | ⟨header, _, count, inside, rfl⟩
        · apply ih
          rw [shape, List.length_append, Packet.encode_length] at enough
          omega
        · rcases Nat.eq_zero_or_pos count with rfl | moved
          · rw [List.drop_zero] at step ⊢
            rw [extractBytes_stuck step, extractBytes_stuck step]
          · apply ih
            rw [List.length_drop]
            omega
      simp only [same]

/-- The loop throws nothing. -/
theorem extractBytes_error (ran : extractBytes fuel bytes = .error halt) :
    halt = .undefined ∨ halt = .diverges := by
  induction fuel generalizing bytes with
  | zero =>
    cases ran
    exact Or.inr rfl
  | succ fuel ih =>
    unfold extractBytes at ran
    cases step : front bytes with
    | waits => simp [step] at ran
    | overruns =>
      rw [step] at ran
      cases ran
      exact Or.inl rfl
    | yields packet rest =>
      simp only [step] at ran
      cases later : extractBytes fuel rest with
      | error other =>
        simp only [later, Except.error.injEq] at ran
        exact ih (ran ▸ later)
      | ok result => simp [later] at ran

/-- The loop has waited at once, or has read a packet and gone on behind it. -/
theorem extractBytes_ok (ran : extractBytes fuel bytes = .ok (packets, left)) :
    ∃ fewer, fuel = fewer + 1 ∧ (front bytes = .waits ∧ packets = [] ∧ left = bytes ∨
      ∃ packet rest more, front bytes = .yields packet rest ∧ extractBytes fewer rest = .ok (more, left) ∧
        packets = packet :: more) := by
  cases fuel with
  | zero => cases ran
  | succ fuel =>
    refine ⟨fuel, rfl, ?_⟩
    unfold extractBytes at ran
    cases step : front bytes with
    | waits =>
      simp only [step, Except.ok.injEq, Prod.mk.injEq] at ran
      exact Or.inl ⟨rfl, ran.1.symm, ran.2.symm⟩
    | overruns => simp [step] at ran
    | yields packet rest =>
      simp only [step] at ran
      cases later : extractBytes fuel rest with
      | error halt => simp [later] at ran
      | ok result =>
        simp only [later, Except.ok.injEq, Prod.mk.injEq] at ran
        obtain ⟨rfl, rfl⟩ := ran
        exact Or.inr ⟨packet, rest, result.1, rfl, later, rfl⟩

/-- The first packet read has the type that stands in front. -/
theorem extractBytes_type (ran : extractBytes fuel bytes = .ok (packet :: packets, left)) :
    packet.type = Packet.typeField bytes := by
  obtain ⟨fewer, rfl, ⟨_, nothing, _⟩ | ⟨first, rest, more, step, _, same⟩⟩ := extractBytes_ok ran
  · cases nothing
  · cases same
    unfold front at step
    split at step
    · rename_i taken
      cases step
      rw [Packet.encode_of_next taken, Packet.typeField_encode]
    · split at step
      · cases step
      · split at step <;> cases step
        rfl

/-- The frames of the packets read are never longer together than what was there. -/
theorem extractBytes_length (ran : extractBytes fuel bytes = .ok (packets, left)) :
    (Packet.codec.encodeAll packets).length ≤ bytes.length := by
  induction fuel generalizing bytes packets with
  | zero => cases ran
  | succ fuel ih =>
    obtain ⟨fewer, counted, ⟨_, rfl, _⟩ | ⟨packet, rest, more, step, later, rfl⟩⟩ := extractBytes_ok ran
    · exact Nat.zero_le _
    · cases counted
      have bound := ih later
      rw [Codec.encodeAll_cons, List.length_append, Packet.codec_encode, Packet.encode_length]
      rcases front_yields step with shape | ⟨header, nothing, count, inside, rfl⟩
      · rw [shape, List.length_append, Packet.encode_length]
        omega
      · -- A bare header gives one empty packet; what is left of it gives none.
        rcases Nat.eq_zero_or_pos count with rfl | moved
        · rw [List.drop_zero] at step later
          rw [extractBytes_stuck step] at later
          cases later
        · have short : (bytes.drop count).length < 12 := by
            rw [List.length_drop]
            omega
          obtain ⟨_, _, ⟨_, rfl, _⟩ | ⟨packet, rest, more, step, _⟩⟩ := extractBytes_ok later
          · simp [nothing, header]
          · rw [front_short short] at step
            cases step

/-- Whole packets, and nothing behind them, are read one by one. -/
theorem extractBytes_encodeAll (packets : List Packet) (enough : (Packet.codec.encodeAll packets).length < fuel) :
    extractBytes fuel (Packet.codec.encodeAll packets) = .ok (packets, []) := by
  induction packets generalizing fuel with
  | nil =>
    obtain ⟨fewer, rfl⟩ := Nat.exists_eq_add_one_of_ne_zero (Nat.ne_zero_of_lt enough)
    rw [Codec.encodeAll_nil, extractBytes, front_short (by decide)]
  | cons packet packets ih =>
    obtain ⟨fewer, rfl⟩ := Nat.exists_eq_add_one_of_ne_zero (Nat.ne_zero_of_lt enough)
    rw [Codec.encodeAll_cons, List.length_append, Packet.codec_encode, Packet.encode_length] at enough
    have first := front_next (Packet.codec.next_iff.mpr (Codec.encodeAll_cons Packet.codec packet packets))
    have rest := @ih fewer (by omega)
    rw [extractBytes, first]
    simp only [rest]

/-! ### Lengths that do not wrap -/

/-- Behind every number of complete packets, a header that is there announces a
length to which the size of a header can be added. -/
def Orderly (bytes : List UInt8) : Prop :=
  ∀ packets rest, bytes = Packet.codec.encodeAll packets ++ rest → 12 ≤ rest.length →
    (Packet.lengthField rest).toNat < 2 ^ 64 - 12

theorem Orderly.behind {packet : Packet} {rest : List UInt8} (orderly : Orderly (packet.encode ++ rest)) : Orderly rest := by
  intro packets tail shape header
  exact orderly (packet :: packets) tail (by simp [shape, Packet.codec_encode]) header

theorem Orderly.behindAll (packets : List Packet) {rest : List UInt8}
    (orderly : Orderly (Packet.codec.encodeAll packets ++ rest)) : Orderly rest := by
  intro others tail shape header
  apply orderly (packets ++ others) tail _ header
  rw [shape, Codec.encodeAll_append, List.append_assoc]

theorem Orderly.before {bytes later : List UInt8} (orderly : Orderly (bytes ++ later)) : Orderly bytes := by
  intro packets rest shape header
  rw [← Packet.lengthField_append header later]
  apply orderly packets (rest ++ later)
  · rw [shape, List.append_assoc]
  · rw [List.length_append]
    omega

/-- Where the test waits, no length has wrapped: a wrapped sum is smaller than a header. -/
theorem Orderly.of_waits (waits : ¬ Message.Announced bytes) : Orderly bytes := by
  intro packets rest shape header
  cases packets with
  | nil =>
    obtain rfl : bytes = rest := shape
    by_contra large
    apply waits
    have bound := (Packet.lengthField bytes).toNat_lt
    refine ⟨header, ?_⟩
    rw [UInt64.toNat_add, headerSize_toNat]
    omega
  | cons packet packets =>
    rw [Codec.encodeAll_cons, List.append_assoc] at shape
    have complete := front_next (Packet.codec.next_iff.mpr shape)
    rw [front_waits waits] at complete
    cases complete

/-- A packet that is there in full has not wrapped, nor does it hide what is behind it. -/
theorem Orderly.of_next (taken : Packet.codec.next bytes = some (packet, rest))
    (small : bytes.length < 2 ^ 63) (orderly : Orderly rest) : Orderly bytes := by
  intro packets tail shape header
  cases packets with
  | nil =>
    obtain rfl : bytes = tail := shape
    have complete : ¬ Packet.codec.next bytes = none := by simp [taken]
    rw [Packet.codec_next_none] at complete
    omega
  | cons other packets =>
    rw [Codec.encodeAll_cons, List.append_assoc] at shape
    rw [Packet.codec.next_iff.mpr shape] at taken
    cases taken
    exact orderly packets tail rfl header

/-- Without wrap-around the test finds out exactly whether a packet is complete. -/
theorem Orderly.announced_iff (orderly : Orderly bytes) :
    Message.Announced bytes ↔ Packet.codec.next bytes ≠ none := by
  rw [ne_eq, Packet.codec_next_none, not_or, Nat.not_lt, Nat.not_lt]
  refine and_congr_right fun header => ?_
  have small := orderly [] bytes rfl header
  have sum : (headerSize + Packet.lengthField bytes).toNat = 12 + (Packet.lengthField bytes).toNat := by
    rw [UInt64.toNat_add, headerSize_toNat]
    omega
  rw [sum]

/-- On lengths that do not wrap, the loop is the draining of the packet codec. -/
theorem extractBytes_orderly (orderly : Orderly bytes) (enough : bytes.length < fuel) :
    extractBytes fuel bytes = .ok (Packet.codec.drain bytes) := by
  induction fuel generalizing bytes with
  | zero => omega
  | succ fuel ih =>
    unfold extractBytes
    cases taken : Packet.codec.next bytes with
    | none =>
      have waits : front bytes = .waits := front_waits fun announced =>
        orderly.announced_iff.mp announced taken
      rw [waits, Packet.codec.drain_stuck taken]
    | some step =>
      obtain ⟨packet, rest⟩ := step
      have shape : bytes = packet.encode ++ rest := Packet.encode_of_next taken
      have later := @ih rest (Orderly.behind (shape ▸ orderly)) (by
        rw [shape, List.length_append, Packet.encode_length] at enough
        omega)
      simp [front_next taken, later, Packet.codec.drain_next taken]

/-- A part of a stream of genuine frames contains no wrapping length. -/
theorem orderly_of_stream (stream : bytes ++ later = Packet.codec.encodeAll packets)
    (small : (Packet.codec.encodeAll packets).length < 2 ^ 63) : Orderly bytes := by
  intro complete rest shape header
  rw [shape, List.append_assoc] at stream
  obtain ⟨missing, rfl, tail⟩ := Packet.codec.encodeAll_prefix _ _ _ stream
  cases missing with
  | nil =>
    have nothing := congrArg List.length tail
    rw [Codec.encodeAll_nil, List.length_append, List.length_nil] at nothing
    omega
  | cons packet missing =>
    have announced : Packet.lengthField rest = UInt64.ofNat packet.payload.length := by
      rw [← Packet.lengthField_append header later, tail, Codec.encodeAll_cons, Packet.codec_encode,
        Packet.lengthField_encode]
    rw [announced, Packet.payload_length_toNat]
    simp only [Codec.encodeAll_append, Codec.encodeAll_cons, Packet.codec_encode, List.length_append,
      Packet.encode_length] at small
    omega

/-! ### Safety of the loop -/

/-- One pass copies exactly the announced number of bytes, all of them unread,
and moves the cursor over the header and these bytes. -/
structure CopiesExactly (before after : Inbox) : Prop where
  inside : 12 + (Packet.lengthField before.pending.unread).toNat ≤ before.pending.unread.length
  copied : ∃ message, after.msgs = before.msgs ++ [message] ∧
    message.unread =
      (before.pending.unread.drop 12).take (Packet.lengthField before.pending.unread).toNat
  moved : after.pending.buffer.cursor.toNat =
    before.pending.buffer.cursor.toNat + 12 + (Packet.lengthField before.pending.unread).toNat
  kept : after.pending.buffer.buffer = before.pending.buffer.buffer

/-- A finished run of the loop, every pass of which copies exactly. -/
inductive SafeLoop (sender : Option Int) : Inbox → Inbox → Prop where
  | done (tested : (onPending Message.isComplet).run before = .ok false after) :
      SafeLoop sender before after
  | pass (tested : (onPending Message.isComplet).run before = .ok true middle)
      (passed : (extractMessage sender).run middle = .ok () next) (exact : CopiesExactly middle next)
      (rest : SafeLoop sender next after) : SafeLoop sender before after

/-- The loop comes to its end without an exception, and safely. -/
def SafelyExtracts (sender : Option Int) (inbox : Inbox) : Prop :=
  ∃ after, (extractMessages sender).run inbox = .ok () after ∧ SafeLoop sender inbox after

theorem extractMessages_run (sender : Option Int) (inbox : Inbox) :
    (extractMessages sender).run inbox =
      (extractLoop sender (inbox.pending.unread.length + 1)).run inbox := rfl

/-- A pass over a packet that is there in full copies exactly. -/
theorem copiesExactly_of_next (sender : Option Int) (valid : inbox.pending.Valid)
    (taken : Packet.codec.next inbox.pending.unread = some (packet, rest)) :
    ∃ next, (extractMessage sender).run inbox = .ok () next ∧ CopiesExactly inbox next ∧
      next.pending.Valid ∧ next.pending.unread = rest := by
  obtain ⟨message, passed, said, _, _⟩ := extractMessage_copies sender valid taken
  have shape : inbox.pending.unread = packet.encode ++ rest := Packet.encode_of_next taken
  have announced : (Packet.lengthField inbox.pending.unread).toNat = packet.payload.length := by
    rw [shape, Packet.lengthField_encode, Packet.payload_length_toNat]
  have inside : 12 + packet.payload.length ≤ inbox.pending.unread.length := by
    rw [shape, List.length_append, Packet.encode_length]
    omega
  have payload : message.unread = packet.payload := congrArg Packet.payload said
  refine ⟨_, passed, ⟨by omega, ⟨message, rfl, ?_⟩, ?_, rfl⟩, DataBuffer.advance_valid valid inside, ?_⟩
  · rw [payload, announced, shape, Packet.encode, List.append_assoc,
      List.drop_left' (by simp), List.take_left' rfl]
  · rw [announced]
    exact (DataBuffer.advance_cursor valid inside).trans (Nat.add_assoc _ _ _).symm
  · refine (DataBuffer.advance_unread valid inside).trans ?_
    change inbox.pending.unread.drop _ = rest
    rw [shape, List.drop_left' packet.encode_length]

/-- On lengths that do not wrap every run of the loop is safe. -/
theorem safeLoop_of_orderly (sender : Option Int) (valid : inbox.pending.Valid)
    (orderly : Orderly inbox.pending.unread) (enough : inbox.pending.unread.length < fuel) :
    ∃ after, (extractLoop sender fuel).run inbox = .ok () after ∧ SafeLoop sender inbox after := by
  induction fuel generalizing inbox with
  | zero => omega
  | succ fuel ih =>
    have tested := isComplet_onPending valid
    cases taken : Packet.codec.next inbox.pending.unread with
    | none =>
      rw [decide_eq_false fun announced => orderly.announced_iff.mp announced taken] at tested
      exact ⟨inbox, whileLoop_done tested, .done tested⟩
    | some step =>
      obtain ⟨packet, rest⟩ := step
      rw [decide_eq_true (orderly.announced_iff.mpr (by simp [taken]))] at tested
      obtain ⟨next, passed, exact, nextValid, left⟩ := copiesExactly_of_next sender valid taken
      have shape : inbox.pending.unread = packet.encode ++ rest := Packet.encode_of_next taken
      obtain ⟨after, ran, safe⟩ := ih nextValid (left ▸ Orderly.behind (shape ▸ orderly)) (by
        rw [shape, List.length_append, Packet.encode_length] at enough
        rw [left]
        omega)
      exact ⟨after, (whileLoop_round tested passed).trans ran, .pass tested passed exact safe⟩

/-- A safe run has met no length that wraps. -/
theorem orderly_of_safeLoop (valid : inbox.pending.Valid) (safe : SafeLoop sender inbox after) :
    Orderly inbox.pending.unread := by
  induction safe with
  | @done before after tested =>
    rw [isComplet_onPending valid, EStateM.Result.ok.injEq, decide_eq_false_iff_not] at tested
    exact .of_waits tested.1
  | @pass before middle next after tested passed exact rest ih =>
    rw [isComplet_onPending valid, EStateM.Result.ok.injEq] at tested
    obtain ⟨_, rfl⟩ := tested
    cases taken : Packet.codec.next before.pending.unread with
    | none =>
      have inside := exact.inside
      rw [Packet.codec_next_none] at taken
      omega
    | some step =>
      obtain ⟨packet, left⟩ := step
      obtain ⟨same, passes, _, nextValid, unread⟩ := copiesExactly_of_next sender valid taken
      rw [passed, EStateM.Result.ok.injEq] at passes
      obtain ⟨_, rfl⟩ := passes
      exact .of_next taken before.pending.buffer.unread_lt (unread ▸ ih nextValid)

/-- The loop both receivers run ends, throws nothing, and in each pass copies
exactly the announced bytes, all of them unread, if and only if no header it
comes to announces 2^64 - 12 bytes or more. -/
theorem extraction_safe_iff (sender : Option Int) (inbox : Inbox) (valid : inbox.pending.Valid) :
    SafelyExtracts sender inbox ↔ Orderly inbox.pending.unread := by
  constructor
  · rintro ⟨after, _, safe⟩
    exact orderly_of_safeLoop valid safe
  · exact fun orderly => safeLoop_of_orderly sender valid orderly (Nat.lt_succ_self _)

end Loop

section Witnesses

attribute [local instance] Platform.littleEndian

/-- A partial message holding these received bytes, none of them read yet. -/
def received (bytes : List UInt8) (fits : bytes.length ≤ maxSize) : Inbox where
  pending := { Message.new with buffer := ⟨⟨bytes, fits⟩, 0⟩ }
  msgs := []

/-- A frame of type 7 with a payload of one byte. -/
theorem extraction_safe_one_frame :
    SafelyExtracts none (received [7, 0, 0, 0, 1, 0, 0, 0, 0, 0, 0, 0, 42] (by decide)) ↔
      Orderly (received [7, 0, 0, 0, 1, 0, 0, 0, 0, 0, 0, 0, 42] (by decide)).pending.unread :=
  extraction_safe_iff none _ (by decide)

/-- A header announcing 2^64 - 12 bytes, with one byte behind it: the copy runs
over the end of the buffer. -/
theorem extraction_unsafe_wrapped_length :
    ¬ SafelyExtracts none (received [7, 0, 0, 0, 0xf4, 255, 255, 255, 255, 255, 255, 255, 42] (by decide)) := by
  rintro ⟨after, ran, _⟩
  have reads : extractBytes 14 [7, 0, 0, 0, 0xf4, 255, 255, 255, 255, 255, 255, 255, 42] =
      .error .undefined := rfl
  obtain ⟨state, stopped⟩ := @extractLoop_fails _ _ _ (received
    [7, 0, 0, 0, 0xf4, 255, 255, 255, 255, 255, 255, 255, 42] (by decide)) none (by decide) reads
  cases stopped.symm.trans ran

end Witnesses

end Inbox
end Libftpp
