import Libftpp.Server

/-! What the server makes of the bytes it receives. It clears the partial message
of a descriptor after every `recv`, so each chunk is decoded on its own: what a
chunk ends with is lost to the next one. A stream of frames is decoded as it was
sent exactly when no frame is cut. -/
namespace Libftpp
open Program World StreamDecoding

/-! ### Pieces decoded one by one -/

section Pieces
variable [Platform]

/-- What is read when every piece of a stream is decoded on its own. -/
def readPieces (pieces : List (List UInt8)) : Except (Halt Exn) (List Packet) :=
  match pieces with
  | [] => .ok []
  | piece :: rest =>
    match Inbox.extractBytes (piece.length + 1) piece with
    | .error halt => .error halt
    | .ok (packets, _) =>
      match readPieces rest with
      | .error halt => .error halt
      | .ok later => .ok (packets ++ later)

theorem readPieces_append (first second : List (List UInt8)) :
    readPieces (first ++ second) =
      match readPieces first with
      | .error halt => .error halt
      | .ok packets =>
        match readPieces second with
        | .error halt => .error halt
        | .ok later => .ok (packets ++ later) := by
  induction first with
  | nil =>
    simp only [List.nil_append, readPieces]
    cases readPieces second <;> rfl
  | cons piece first ih =>
    simp only [List.cons_append, readPieces, ih]
    cases Inbox.extractBytes (piece.length + 1) piece with
    | error halt => rfl
    | ok result =>
      cases readPieces first with
      | error halt => rfl
      | ok packets =>
        cases readPieces second with
        | error halt => rfl
        | ok later => simp

theorem readPieces_single {piece : List UInt8} (ran : Inbox.extractBytes (piece.length + 1) piece = .ok (packets, left)) :
    readPieces [piece] = .ok packets := by
  simp [readPieces, ran]

/-- The frames of what is read are never longer together than what was received. -/
theorem readPieces_length {pieces : List (List UInt8)} (ran : readPieces pieces = .ok packets) :
    (Packet.codec.encodeAll packets).length ≤ pieces.flatten.length := by
  induction pieces generalizing packets with
  | nil =>
    cases ran
    exact Nat.le_refl _
  | cons piece pieces ih =>
    simp only [readPieces] at ran
    cases first : Inbox.extractBytes (piece.length + 1) piece with
    | error halt => simp [first] at ran
    | ok result =>
      obtain ⟨front, left⟩ := result
      simp only [first] at ran
      cases rest : readPieces pieces with
      | error halt => simp [rest] at ran
      | ok later =>
        simp only [rest, Except.ok.injEq] at ran
        subst ran
        have head := Inbox.extractBytes_length first
        have tail := ih rest
        rw [Codec.encodeAll_append, List.length_append, List.flatten_cons, List.length_append]
        omega

/-- No frame is cut: after any number of pieces, what has arrived is a number of
whole frames. -/
def Uncut (pieces frames : List (List UInt8)) : Prop :=
  ∀ before after, pieces = before ++ after →
    ∃ whole rest, frames = whole ++ rest ∧ before.flatten = whole.flatten

/-- Pieces that hold whole packets are decoded to these. -/
theorem readPieces_of_uncut {pieces : List (List UInt8)}
    (stream : pieces.flatten = Packet.codec.encodeAll packets)
    (uncut : Uncut pieces (packets.map Packet.encode)) : readPieces pieces = .ok packets := by
  induction pieces generalizing packets with
  | nil =>
    have nothing : packets = [] := by
      cases packets with
      | nil => rfl
      | cons packet packets =>
        have size := congrArg List.length stream
        rw [Codec.encodeAll_cons, List.length_append, Packet.codec_encode, Packet.encode_length] at size
        simp at size
        omega
    rw [nothing]
    rfl
  | cons piece pieces ih =>
    obtain ⟨_, _, split, bytes⟩ := uncut [piece] pieces rfl
    obtain ⟨front, back, rfl, rfl, rfl⟩ := List.map_eq_append_iff.mp split
    rw [List.flatten_cons, List.flatten_nil, List.append_nil, ← List.flatMap_def] at bytes
    change piece = Packet.codec.encodeAll front at bytes
    rw [List.flatten_cons, bytes, Codec.encodeAll_append, List.append_cancel_left_eq] at stream
    have first : Inbox.extractBytes (piece.length + 1) piece = .ok (front, []) := by
      rw [bytes]
      exact Inbox.extractBytes_encodeAll front (Nat.lt_succ_self _)
    have rest : readPieces pieces = .ok back := by
      apply ih stream
      intro before after shape
      obtain ⟨_, _, split, upTo⟩ := uncut (piece :: before) after (by rw [shape, List.cons_append])
      obtain ⟨whole, rest, parts, rfl, rfl⟩ := List.map_eq_append_iff.mp split
      rw [List.flatten_cons, bytes, ← List.flatMap_def] at upTo
      obtain ⟨more, rfl, tail⟩ := Packet.codec.encodeAll_prefix _ _ _ upTo
      rw [List.append_assoc, List.append_cancel_left_eq] at parts
      refine ⟨_, _, by rw [parts, List.map_append], ?_⟩
      rw [tail, ← List.flatMap_def]
      rfl
    rw [readPieces, first]
    simp only [rest]

/-- If the packets of a stream come out of its pieces, no piece had anything to
spare, so none ended inside a packet. -/
theorem uncut_of_readPieces {pieces : List (List UInt8)}
    (stream : pieces.flatten = Packet.codec.encodeAll packets)
    (ran : readPieces pieces = .ok packets) : Uncut pieces (packets.map Packet.encode) := by
  intro before after shape
  subst shape
  rw [readPieces_append] at ran
  cases first : readPieces before with
  | error halt => simp [first] at ran
  | ok whole =>
    cases second : readPieces after with
    | error halt => simp [first, second] at ran
    | ok rest =>
      simp only [first, second, Except.ok.injEq] at ran
      subst ran
      refine ⟨_, _, List.map_append, ?_⟩
      rw [← List.flatMap_def]
      have bound := readPieces_length first
      have boundAfter := readPieces_length second
      rw [List.flatten_append, Codec.encodeAll_append] at stream
      have size := congrArg List.length stream
      rw [List.length_append, List.length_append] at size
      exact (List.append_inj stream (by omega)).1

end Pieces

namespace Server

/-! ### The partial message of a descriptor -/

@[simp] theorem partialOf_insert (server : Server) (fd : Int) (pending : Message) (msgs : List Message) :
    partialOf { server with partialMsgs := server.partialMsgs.insert fd pending, msgs } fd = pending := by
  simp [partialOf]

theorem onPartial_returns {operation : Program Exn Message α} {world : World Server} {fd : Int}
    (ran : operation.run (world.object.partialOf fd) = .ok value pending) :
    (onPartial fd operation).run world = .ok value
      { world with object := { world.object with
          partialMsgs := world.object.partialMsgs.insert fd pending } } :=
  zoom_returns ran

theorem onInbox_returns {operation : Program Exn Inbox α} {world : World Server} {fd : Int}
    (ran : operation.run ⟨world.object.partialOf fd, world.object.msgs⟩ = .ok value inbox) :
    (onInbox fd operation).run world = .ok value
      { world with object := { world.object with
          partialMsgs := world.object.partialMsgs.insert fd inbox.pending
          msgs := inbox.msgs } } :=
  zoom_returns ran

theorem onInbox_stops {operation : Program Exn Inbox α} {world : World Server} {fd : Int}
    (ran : operation.run ⟨world.object.partialOf fd, world.object.msgs⟩ = .error halt inbox) :
    (onInbox fd operation).run world = .error halt
      { world with object := { world.object with
          partialMsgs := world.object.partialMsgs.insert fd inbox.pending
          msgs := inbox.msgs } } :=
  zoom_stops ran

/-- Nothing has been put into the partial message of this descriptor, or all of
it has been cleared. -/
def Blank (server : Server) (fd : Int) : Prop := (server.partialOf fd).buffer = .empty

theorem blank_of_absent {server : Server} (absent : server.partialMsgs.lookup fd = none) : server.Blank fd := by
  rw [Blank, partialOf, absent]
  rfl

/-- A chunk goes into a partial message that holds nothing else. -/
theorem appendBytes_blank {fd : Int} {world : World Server} (blank : world.object.Blank fd)
    (chunk : Chunk READ_BUFFER_SIZE) :
    ∃ pending, (onPartial fd (Message.appendBytes (some chunk.bytes) (UInt64.ofNat chunk.bytes.length))).run
        world = .ok () { world with object := { world.object with
          partialMsgs := world.object.partialMsgs.insert fd pending } } ∧
      pending.Valid ∧ pending.unread = chunk.bytes := by
  have short : chunk.bytes.length ≤ maxSize := Nat.le_trans chunk.fits (by decide)
  obtain ⟨grown, appended, holds, unread, _⟩ := @DataBuffer.append_run ((world.object.partialOf fd).buffer) (by rw [blank]; exact DataBuffer.empty_valid) chunk.bytes []
    (by rw [blank]; exact (Nat.zero_add _).symm ▸ short)
  rw [List.append_nil] at appended
  refine ⟨_, onPartial_returns (Message.onBuffer_returns appended), holds, ?_⟩
  change grown.unread = chunk.bytes
  rw [unread, blank]
  rfl

section Reception
variable [Platform]

theorem decodeMessages_returns {world : World Server} {fd : Int} (valid : (world.object.partialOf fd).Valid)
    (reads : Inbox.extractBytes ((world.object.partialOf fd).unread.length + 1)
      (world.object.partialOf fd).unread = .ok (packets, left)) :
    ∃ pending new, (decodeMessages fd).run world = .ok ()
        { world with
          object := { world.object with
            partialMsgs := world.object.partialMsgs.insert fd pending
            msgs := world.object.msgs ++ new }
          log := world.log ++ [.queued fd new] } ∧
      pending.Valid ∧ new.map Message.packet = packets ∧
      ∀ message ∈ new, message.fd = some fd ∧ message.Untouched := by
  obtain ⟨pending, new, ran, holds, _, _, said, sound⟩ :=
    @Inbox.extractLoop_returns _ _ _ _ ⟨world.object.partialOf fd, world.object.msgs⟩ (some fd) valid reads
  have looped := onInbox_returns ((Inbox.extractMessages_run (some fd) _).trans ran)
  refine ⟨pending, new, ?_, holds, said, sound⟩
  rw [decodeMessages, EStateM.run_bind, EStateM.run_get]
  simp only [EStateM.run_bind, looped, EStateM.run_get, run_emit, List.drop_left]

theorem decodeMessages_fails {world : World Server} {fd : Int} (valid : (world.object.partialOf fd).Valid)
    (reads : Inbox.extractBytes ((world.object.partialOf fd).unread.length + 1)
      (world.object.partialOf fd).unread = .error halt) :
    ∃ after, (decodeMessages fd).run world = .error halt after := by
  obtain ⟨after, ran⟩ :=
    @Inbox.extractLoop_fails _ _ _ ⟨world.object.partialOf fd, world.object.msgs⟩ (some fd) valid reads
  have looped := onInbox_stops ((Inbox.extractMessages_run (some fd) _).trans ran)
  exact ⟨_, bind_stops.mpr (Or.inr ⟨world, world, rfl, bind_stops.mpr (Or.inl looped)⟩)⟩

/-- The bytes of a chunk alone decide what is queued; nothing stays pending. -/
theorem receiveChunk_returns {fd : Int} {chunk : Chunk READ_BUFFER_SIZE} {world : World Server}
    (blank : world.object.Blank fd)
    (reads : Inbox.extractBytes (chunk.bytes.length + 1) chunk.bytes = .ok (packets, left)) :
    ∃ pending new, (receiveChunk fd chunk).run world = .ok ()
        { world with
          object := { world.object with
            partialMsgs := world.object.partialMsgs.insert fd pending
            msgs := world.object.msgs ++ new }
          log := world.log ++ [.received fd chunk.bytes, .queued fd new] } ∧
      pending.buffer = .empty ∧ new.map Message.packet = packets ∧
      ∀ message ∈ new, message.fd = some fd ∧ message.Untouched := by
  obtain ⟨filled, fed, holds, unread⟩ :=
    @appendBytes_blank _ { world with log := world.log ++ [.received fd chunk.bytes] } blank chunk
  obtain ⟨decoded, new, ran, _, said, sound⟩ := @decodeMessages_returns _ _ _ { world with
      object := { world.object with partialMsgs := world.object.partialMsgs.insert fd filled }
      log := world.log ++ [.received fd chunk.bytes] } fd (by rw [partialOf_insert]; exact holds) (by rw [partialOf_insert, unread]; exact reads)
  refine ⟨{ decoded with buffer := .empty }, new, ?_, rfl, said, sound⟩
  rw [receiveChunk, EStateM.run_bind, run_emit]
  simp only [EStateM.run_bind, fed, ran]
  rw [onPartial_returns ((@Message.onBuffer_returns _ _ .empty) rfl)]
  simp [partialOf_insert, AList.insert_insert]

theorem receiveChunk_fails {fd : Int} {chunk : Chunk READ_BUFFER_SIZE} {world : World Server}
    (blank : world.object.Blank fd)
    (reads : Inbox.extractBytes (chunk.bytes.length + 1) chunk.bytes = .error halt) :
    ∃ after, (receiveChunk fd chunk).run world = .error halt after := by
  obtain ⟨filled, fed, holds, unread⟩ :=
    @appendBytes_blank _ { world with log := world.log ++ [.received fd chunk.bytes] } blank chunk
  obtain ⟨after, stopped⟩ := @decodeMessages_fails _ _ { world with
      object := { world.object with partialMsgs := world.object.partialMsgs.insert fd filled }
      log := world.log ++ [.received fd chunk.bytes] } fd (by rw [partialOf_insert]; exact holds) (by rw [partialOf_insert, unread]; exact reads)
  refine ⟨after, ?_⟩
  rw [receiveChunk, EStateM.run_bind, run_emit]
  simp only [EStateM.run_bind, fed, stopped]

/-- Receptions on one descriptor have queued these messages and left nothing
pending on it. -/
structure TakesIn (fd : Int) (new : List Message) (before after : World Server) : Prop where
  object : ∃ partialMsgs, after.object =
    { before.object with partialMsgs, msgs := before.object.msgs ++ new }
  blank : after.object.Blank fd
  ours : ∀ message ∈ new, message.fd = some fd ∧ message.Untouched

omit [Platform] in
theorem TakesIn.trans (first : TakesIn fd earlier before middle) (second : TakesIn fd later middle after) :
    TakesIn fd (earlier ++ later) before after := by
  obtain ⟨_, state⟩ := first.object
  obtain ⟨partialMsgs, object⟩ := second.object
  constructor
  · refine ⟨partialMsgs, ?_⟩
    rw [object, state]
    simp only [List.append_assoc]
  · exact second.blank
  · intro message member
    rcases List.mem_append.mp member with old | fresh
    · exact first.ours message old
    · exact second.ours message fresh

/-- Successive chunks: each is decoded by itself. -/
theorem receiveChunks_read {fd : Int} {chunks : List (Chunk READ_BUFFER_SIZE)} {world : World Server}
    (blank : world.object.Blank fd) :
    match readPieces (chunks.map Chunk.bytes) with
    | .ok packets => ∃ after new, (chunks.forM (receiveChunk fd)).run world = .ok () after ∧
        TakesIn fd new world after ∧ new.map Message.packet = packets
    | .error halt => ∃ after, (chunks.forM (receiveChunk fd)).run world = .error halt after := by
  induction chunks generalizing world with
  | nil => exact ⟨world, [], rfl, ⟨⟨_, by rw [List.append_nil]⟩, blank, by simp⟩, rfl⟩
  | cons chunk chunks ih =>
    rw [List.map_cons]
    unfold readPieces
    cases reads : Inbox.extractBytes (chunk.bytes.length + 1) chunk.bytes with
    | error halt =>
      obtain ⟨after, stopped⟩ := receiveChunk_fails blank reads
      exact ⟨after, bind_stops.mpr (Or.inl stopped)⟩
    | ok result =>
      obtain ⟨packets, left⟩ := result
      obtain ⟨pending, new, ran, cleared, said, ours⟩ := receiveChunk_returns blank reads
      have blankAfter : ({ world.object with
          partialMsgs := world.object.partialMsgs.insert fd pending
          msgs := world.object.msgs ++ new } : Server).Blank fd := by
        rw [Blank, partialOf_insert]
        exact cleared
      have first : TakesIn fd new world
          { world with
            object := { world.object with
              partialMsgs := world.object.partialMsgs.insert fd pending
              msgs := world.object.msgs ++ new }
            log := world.log ++ [.received fd chunk.bytes, .queued fd new] } :=
        ⟨⟨_, rfl⟩, blankAfter, ours⟩
      have rest := ih first.blank
      cases later : readPieces (chunks.map Chunk.bytes) with
      | error halt =>
        simp only [later] at rest ⊢
        obtain ⟨after, stopped⟩ := rest
        exact ⟨after, bind_stops.mpr (Or.inr ⟨_, _, ran, stopped⟩)⟩
      | ok others =>
        simp only [later] at rest ⊢
        obtain ⟨after, newer, ranRest, taken, saidRest⟩ := rest
        refine ⟨after, new ++ newer, bind_returns.mpr ⟨_, _, ran, ranRest⟩, first.trans taken, ?_⟩
        rw [List.map_append, said, saidRest]

/-- Successive calls of `_receiveClientMsg`, each of which ends because nothing
more is there. -/
def receiveCalls (fd : Int) (calls : List (List (Chunk READ_BUFFER_SIZE))) : Call Server Unit :=
  calls.forM fun chunks => do
    let _connected ← receiveClientMsg fd ⟨chunks, .failed EAGAIN⟩
    pure ()

/-- One call that ends because nothing more is there. -/
theorem receiveClientMsg_again {fd : Int} {chunks : List (Chunk READ_BUFFER_SIZE)} {world : World Server}
    (watched : fd ∈ world.object.readyRead.fds) (blank : world.object.Blank fd) :
    match readPieces (chunks.map Chunk.bytes) with
    | .ok packets => ∃ after new,
        (receiveClientMsg fd ⟨chunks, .failed EAGAIN⟩).run world = .ok true after ∧
        TakesIn fd new world after ∧ new.map Message.packet = packets
    | .error halt => ∃ after, (receiveClientMsg fd ⟨chunks, .failed EAGAIN⟩).run world = .error halt after := by
  have selectable : ¬ ¬ Selectable fd := not_not.mpr (world.object.readyRead.inside fd watched)
  have enters : (receiveClientMsg fd ⟨chunks, .failed EAGAIN⟩).run world =
      (do chunks.forM (receiveChunk fd); setErrno EAGAIN; pure true : Call Server Bool).run world := by
    rw [receiveClientMsg, EStateM.run_bind, EStateM.run_get]
    exact congrArg (EStateM.run · world) ((if_neg selectable).trans (if_neg (not_not.mpr watched)))
  rw [enters]
  have body := (@receiveChunks_read _ _ chunks) blank
  cases reads : readPieces (chunks.map Chunk.bytes) with
  | error halt =>
    simp only [reads] at body ⊢
    obtain ⟨after, stopped⟩ := body
    exact ⟨after, bind_stops.mpr (Or.inl stopped)⟩
  | ok packets =>
    simp only [reads] at body ⊢
    obtain ⟨after, new, ran, taken, said⟩ := body
    exact ⟨{ after with errno := EAGAIN }, new, bind_returns.mpr ⟨_, _, ran, rfl⟩,
      ⟨taken.object, taken.blank, taken.ours⟩, said⟩

/-- How the chunks are grouped into calls makes no difference. -/
theorem receiveCalls_read {fd : Int} {calls : List (List (Chunk READ_BUFFER_SIZE))} {world : World Server}
    (watched : fd ∈ world.object.readyRead.fds) (blank : world.object.Blank fd) :
    match readPieces (calls.flatten.map Chunk.bytes) with
    | .ok packets => ∃ after new, (receiveCalls fd calls).run world = .ok () after ∧
        TakesIn fd new world after ∧ new.map Message.packet = packets
    | .error halt => ∃ after, (receiveCalls fd calls).run world = .error halt after := by
  induction calls generalizing world with
  | nil => exact ⟨world, [], rfl, ⟨⟨_, by rw [List.append_nil]⟩, blank, by simp⟩, rfl⟩
  | cons chunks calls ih =>
    rw [List.flatten_cons, List.map_append, readPieces_append]
    have first := (@receiveClientMsg_again _ _ chunks) watched blank
    cases reads : readPieces (chunks.map Chunk.bytes) with
    | error halt =>
      simp only [reads] at first ⊢
      obtain ⟨after, stopped⟩ := first
      exact ⟨after, bind_stops.mpr (Or.inl (bind_stops.mpr (Or.inl stopped)))⟩
    | ok packets =>
      simp only [reads] at first ⊢
      obtain ⟨middle, new, ran, taken, said⟩ := first
      have still : fd ∈ middle.object.readyRead.fds := by
        obtain ⟨partialMsgs, object⟩ := taken.object
        rw [object]
        exact watched
      have rest := ih still taken.blank
      cases later : readPieces (calls.flatten.map Chunk.bytes) with
      | error halt =>
        simp only [later] at rest ⊢
        obtain ⟨after, stopped⟩ := rest
        exact ⟨after, bind_stops.mpr (Or.inr ⟨_, _, bind_returns.mpr ⟨_, _, ran, rfl⟩, stopped⟩)⟩
      | ok others =>
        simp only [later] at rest ⊢
        obtain ⟨after, newer, ranRest, takenRest, saidRest⟩ := rest
        refine ⟨after, new ++ newer, bind_returns.mpr ⟨_, _, bind_returns.mpr ⟨_, _, ran, rfl⟩, ranRest⟩,
          taken.trans takenRest, ?_⟩
        rw [List.map_append, said, saidRest]

/-- A stream of frames is reassembled, whatever the grouping into calls, exactly
when no chunk ends inside a frame. -/
theorem stream_reassembled_iff {fd : Int} {messages : List Message} {world : World Server}
    (sent : Message.Frames messages frames) (watched : fd ∈ world.object.readyRead.fds)
    (fresh : world.object.partialMsgs.lookup fd = none)
    (stream : (calls.flatten.map Chunk.bytes).flatten = frames.flatten) :
    (∃ after new, (receiveCalls fd calls).run world = .ok () after ∧
        after.object.msgs = world.object.msgs ++ new ∧
        new.map Message.packet = messages.map Message.packet ∧ ∀ message ∈ new, message.fd = some fd) ↔
      Uncut (calls.flatten.map Chunk.bytes) frames := by
  have encoded := Message.frames_encode sent
  rw [Message.frames_eq sent] at stream
  have read := (@receiveCalls_read _ _ calls) watched (blank_of_absent fresh)
  rw [encoded]
  constructor
  · rintro ⟨after, new, ran, queue, said, _⟩
    cases reads : readPieces (calls.flatten.map Chunk.bytes) with
    | error halt =>
      simp only [reads, ran] at read
      obtain ⟨_, stopped⟩ := read
      cases stopped
    | ok packets =>
      simp only [reads] at read
      obtain ⟨_, queued, again, taken, decoded⟩ := read
      rw [ran] at again
      cases again
      obtain ⟨partialMsgs, object⟩ := taken.object
      rw [object, List.append_cancel_left_eq] at queue
      subst queue
      rw [said] at decoded
      exact uncut_of_readPieces stream (decoded ▸ reads)
  · intro uncut
    have reads := readPieces_of_uncut stream uncut
    simp only [reads] at read
    obtain ⟨after, new, ran, taken, said⟩ := read
    obtain ⟨partialMsgs, object⟩ := taken.object
    exact ⟨after, new, ran, by rw [object], said, fun message member => (taken.ours message member).1⟩

end Reception

section Witnesses

attribute [local instance] Platform.littleEndian

/-- A server that watches descriptor 5. -/
def listening : Server :=
  .new "" 0 .zero (FdSet.zero.set 5 (by decide))

/-- Three messages: one without payload, and twice one that holds a byte. -/
def threeMessages : List Message :=
  [⟨none, 7, .empty⟩, ⟨none, 8, ⟨⟨[9], by decide⟩, 0⟩⟩, ⟨none, 8, ⟨⟨[9], by decide⟩, 0⟩⟩]

/-- Their frames. -/
def frameOfNone : List UInt8 := [7, 0, 0, 0, 0, 0, 0, 0, 0, 0, 0, 0]

def frameOfByte : List UInt8 := [8, 0, 0, 0, 1, 0, 0, 0, 0, 0, 0, 0, 9]

/-- They come in two calls: two in one chunk, and then the third by itself. -/
def threeFrames : List (List (Chunk READ_BUFFER_SIZE)) :=
  [[⟨[7, 0, 0, 0, 0, 0, 0, 0, 0, 0, 0, 0, 8, 0, 0, 0, 1, 0, 0, 0, 0, 0, 0, 0, 9], by decide, by decide⟩],
    [⟨[8, 0, 0, 0, 1, 0, 0, 0, 0, 0, 0, 0, 9], by decide, by decide⟩]]

theorem whole_frames_reassembled :
    ∃ after new, (receiveCalls 5 threeFrames).run ⟨listening, 0, []⟩ = .ok () after ∧
      after.object.msgs = [] ++ new ∧
      new.map Message.packet = threeMessages.map Message.packet ∧
      ∀ message ∈ new, message.fd = some 5 := by
  have sent : Message.Frames threeMessages [frameOfNone, frameOfByte, frameOfByte] :=
    .cons rfl (.cons rfl (.cons rfl .nil))
  apply (@stream_reassembled_iff _ _ threeFrames 5 _ ⟨listening, 0, []⟩ sent (by decide) rfl rfl).mpr
  rintro (_ | ⟨first, _ | ⟨second, _ | ⟨third, before⟩⟩⟩) after split
  · exact ⟨[], _, rfl, rfl⟩
  · cases split
    exact ⟨[frameOfNone, frameOfByte], [frameOfByte], rfl, rfl⟩
  · cases split
    exact ⟨[frameOfNone, frameOfByte, frameOfByte], [], rfl, rfl⟩
  · cases split

/-- A frame cut inside its header: nothing is queued. -/
theorem cut_frame_lost :
    ¬ ∃ after new, (receiveCalls 5 [[⟨[7, 0, 0], by decide, by decide⟩,
          ⟨[0, 0, 0, 0, 0, 0, 0, 0, 0], by decide, by decide⟩]]).run ⟨listening, 0, []⟩ = .ok () after ∧
      after.object.msgs = [] ++ new ∧
      new.map Message.packet = [(⟨none, 7, .empty⟩ : Message)].map Message.packet ∧
      ∀ message ∈ new, message.fd = some 5 := by
  rintro ⟨after, new, ran, queue, said, _⟩
  have nothing : (exitState (receiveCalls 5 [[⟨[7, 0, 0], by decide, by decide⟩,
      ⟨[0, 0, 0, 0, 0, 0, 0, 0, 0], by decide, by decide⟩]]) ⟨listening, 0, []⟩).map
        (·.object.msgs.length) = some 0 := by decide +kernel
  rw [exitState_of_returns ran, Option.map_some, Option.some.injEq, queue, List.nil_append] at nothing
  rw [List.length_eq_zero_iff.mp nothing] at said
  cases said

end Witnesses

end Server
end Libftpp
