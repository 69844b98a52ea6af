import Libftpp.ClientRuns

/-! How much of one connection is left when the next one begins. What a client
decodes depends on the unread bytes of its partial message and on what it then
receives, and on nothing else. No way of ending a connection clears the partial
message, so the unread bytes of one connection stand in front of the next. -/
namespace Libftpp
open Program World StreamDecoding

namespace Client

section Isolation
variable [Platform]

/-- What a reception decodes, and what it leaves unread, as a function of what
was unread before. -/
def hears (unread : List UInt8) (script : RecvScript MAX_READ_BUFFER) :
    Except (Halt Exn) (List Packet × List UInt8) :=
  if script.last.WouldBlock then
    Inbox.extractBytes ((unread ++ script.bytes).length + 1) (unread ++ script.bytes)
  else .ok ([], unread ++ script.bytes)

/-- What successive receptions decode. -/
def hearsAll (unread : List UInt8) (scripts : List (RecvScript MAX_READ_BUFFER)) :
    Except (Halt Exn) (List Packet) :=
  match scripts with
  | [] => .ok []
  | script :: rest =>
    match hears unread script with
    | .error halt => .error halt
    | .ok (packets, left) =>
      match hearsAll left rest with
      | .error halt => .error halt
      | .ok later => .ok (packets ++ later)

theorem hearsAll_single (unread : List UInt8) (script : RecvScript MAX_READ_BUFFER) :
    hearsAll unread [script] =
      match hears unread script with
      | .error halt => .error halt
      | .ok (packets, _) => .ok packets := by
  unfold hearsAll
  cases hears unread script with
  | error halt => rfl
  | ok result => simp [hearsAll]

/-- A reception does what `hears` says, whichever way it is left. -/
theorem receiveMessage_hears (valid : world.object.tmpMsg.Valid)
    (fits : world.object.tmpMsg.buffer.buffer.bytes.length + script.bytes.length ≤ maxSize) :
    match hears world.object.tmpMsg.unread script with
    | .ok (packets, left) => ∃ after new, (attempt (receiveMessage script)).run world = .ok () after ∧
        after.object.msgs = world.object.msgs ++ new ∧ new.map Message.packet = packets ∧
        after.object.tmpMsg.Valid ∧ after.object.tmpMsg.unread = left ∧
        after.object.tmpMsg.buffer.buffer.bytes =
          world.object.tmpMsg.buffer.buffer.bytes ++ script.bytes
    | .error halt => ∃ after, (attempt (receiveMessage script)).run world = .error halt after := by
  unfold hears
  by_cases again : script.last.WouldBlock
  · rw [if_pos again]
    cases reads : Inbox.extractBytes ((world.object.tmpMsg.unread ++ script.bytes).length + 1)
        (world.object.tmpMsg.unread ++ script.bytes) with
    | ok result =>
      obtain ⟨pending, new, ran, holds, left, whole, said, _⟩ := receiveMessage_again valid fits again reads
      exact ⟨_, new, attempt_returns.mpr (.of_returns ran), rfl, said, holds, left, whole⟩
    | error halt =>
      obtain ⟨after, stopped⟩ := receiveMessage_again_fails valid fits again reads
      refine ⟨after, ?_⟩
      rcases Inbox.extractBytes_error reads with rfl | rfl
      · exact attempt_stops (by simp) stopped
      · exact attempt_stops (by simp) stopped
  · rw [if_neg again]
    cases last : script.last with
    | endOfFile =>
      obtain ⟨pending, ran, holds, left, whole⟩ := receiveMessage_endOfFile valid fits last
      exact ⟨_, [], attempt_returns.mpr (.of_returns ran), (List.append_nil _).symm, rfl, holds, left, whole⟩
    | failed errno =>
      obtain ⟨pending, left, holds, unread, whole⟩ := receiveMessage_failed valid fits last again
      exact ⟨_, [], attempt_returns.mpr left, (List.append_nil _).symm, rfl, holds, unread, whole⟩

/-- What the receptions of one connection decode, whatever they throw. -/
def decoded (scripts : List (RecvScript MAX_READ_BUFFER)) (world : World Client) :
    Except (Halt Exn) (List Packet) :=
  match (inTurn (scripts.map receiveMessage)).run world with
  | .ok _ after => .ok ((after.object.msgs.drop world.object.msgs.length).map Message.packet)
  | .error halt _ => .error halt

/-- The bytes of these receptions fit into the partial message, which holds on
to everything it has ever been given. -/
def Room (world : World Client) (scripts : List (RecvScript MAX_READ_BUFFER)) : Prop :=
  world.object.tmpMsg.buffer.buffer.bytes.length + (scripts.flatMap RecvScript.bytes).length ≤ maxSize

instance (world : World Client) (scripts : List (RecvScript MAX_READ_BUFFER)) : Decidable (Room world scripts) :=
  inferInstanceAs (Decidable (_ ≤ _))

theorem receptions_hear (valid : world.object.tmpMsg.Valid) (room : Room world scripts) :
    match hearsAll world.object.tmpMsg.unread scripts with
    | .ok packets => ∃ after new, (inTurn (scripts.map receiveMessage)).run world = .ok () after ∧
        after.object.msgs = world.object.msgs ++ new ∧ new.map Message.packet = packets
    | .error halt => ∃ after, (inTurn (scripts.map receiveMessage)).run world = .error halt after := by
  induction scripts generalizing world with
  | nil => exact ⟨world, [], rfl, (List.append_nil _).symm, rfl⟩
  | cons script scripts ih =>
    unfold Room at room
    rw [List.flatMap_cons, List.length_append] at room
    have first := (@receiveMessage_hears _ script) valid (by omega)
    unfold hearsAll
    cases heard : hears world.object.tmpMsg.unread script with
    | error halt =>
      simp only [heard] at first ⊢
      obtain ⟨after, stopped⟩ := first
      exact ⟨after, bind_stops.mpr (Or.inl stopped)⟩
    | ok result =>
      obtain ⟨packets, left⟩ := result
      simp only [heard] at first ⊢
      obtain ⟨middle, new, ran, queue, said, holds, rfl, whole⟩ := first
      have rest := @ih middle holds (by
        unfold Room
        rw [whole, List.length_append]
        omega)
      cases later : hearsAll middle.object.tmpMsg.unread scripts with
      | error halt =>
        simp only [later] at rest ⊢
        obtain ⟨after, stopped⟩ := rest
        exact ⟨after, bind_stops.mpr (Or.inr ⟨(), middle, ran, stopped⟩)⟩
      | ok others =>
        simp only [later] at rest ⊢
        obtain ⟨after, newer, ranRest, grown, saidRest⟩ := rest
        refine ⟨after, new ++ newer, bind_returns.mpr ⟨(), middle, ran, ranRest⟩, ?_, ?_⟩
        · rw [grown, queue, List.append_assoc]
        · rw [List.map_append, said, saidRest]

/-- What is decoded is determined by the unread bytes and the receptions. -/
theorem decoded_eq (valid : world.object.tmpMsg.Valid) (room : Room world scripts) :
    decoded scripts world = hearsAll world.object.tmpMsg.unread scripts := by
  have hears := receptions_hear valid room
  unfold decoded
  cases heard : hearsAll world.object.tmpMsg.unread scripts with
  | error halt =>
    simp only [heard] at hears
    obtain ⟨after, stopped⟩ := hears
    rw [stopped]
  | ok packets =>
    simp only [heard] at hears
    obtain ⟨after, new, ran, queue, said⟩ := hears
    rw [ran]
    simp only [queue, List.drop_left, said]

theorem connect_run (fd : Nat) (address : String) (port : UInt64) (world : World Client) :
    (connect ⟨.opened fd, true, none⟩ address port).run world = .ok ()
      { world with
        object := { world.object with fd }
        log := (disconnected world).log ++ [.opened fd] ++ [.connecting address port.toUInt16] } := by
  rw [connect, EStateM.run_bind, disconnect_run]
  rfl

omit [Platform] in
private theorem never_returns {program : Call Client Unit} (stopped : program.run before = .error halt final) :
    program.run before ≠ .ok () after := by
  rw [stopped]
  exact fun same => by cases same

/-- Only a connection that is established lets `connect` return. -/
theorem connect_established (ran : (connect script address port).run before = .ok () second) :
    ∃ fd : Nat, script = ⟨.opened fd, true, none⟩ := by
  obtain ⟨socket, resolves, refused⟩ := script
  obtain ⟨_, cut, _, ran⟩ := bind_returns.mp ran
  cases socket with
  | failed errno =>
    obtain ⟨_, _, _, ran⟩ := bind_returns.mp ran
    obtain ⟨_, _, _, ran⟩ := bind_returns.mp ran
    exact absurd ran (never_returns (networkError_run _ _))
  | opened fd =>
    obtain ⟨_, _, _, ran⟩ := bind_returns.mp ran
    obtain ⟨_, _, _, ran⟩ := bind_returns.mp ran
    cases resolves with
    | false => exact absurd ran (never_returns (networkError_run _ _))
    | true =>
      obtain ⟨_, _, _, ran⟩ := bind_returns.mp ran
      cases refused with
      | none => exact ⟨fd, rfl⟩
      | some errno =>
        obtain ⟨_, _, _, ran⟩ := bind_returns.mp ran
        exact absurd ran (never_returns (networkError_run _ _))

/-- Whatever is unread can be told apart from nothing: some frame is read
differently behind it. -/
theorem heard_behind_leftover (first : UInt8) (rest : List UInt8) :
    ∃ script : RecvScript MAX_READ_BUFFER, script.bytes.length = 12 ∧
      hearsAll (first :: rest) [script] ≠ hearsAll [] [script] := by
  -- A frame whose first byte is not the first unread one.
  let type := decodeInt [first + 1, 0, 0, 0]
  let packet : Packet := ⟨type, [], by simp⟩
  have size : packet.encode.length = 12 := packet.encode_length
  have sized : packet.encode ≠ [] := List.ne_nil_of_length_pos (by omega)
  let script : RecvScript MAX_READ_BUFFER :=
    ⟨[⟨packet.encode, sized, by rw [size]; decide⟩], .failed EAGAIN⟩
  have bytes : script.bytes = packet.encode := by simp [script, RecvScript.bytes]
  refine ⟨script, by rw [bytes, size], ?_⟩
  have again : script.last.WouldBlock := Or.inl rfl
  have alone : Packet.codec.encodeAll [packet] = packet.encode := by simp [Packet.codec_encode]
  have heard : ∀ unread, hears unread script =
      Inbox.extractBytes ((unread ++ packet.encode).length + 1) (unread ++ packet.encode) := by
    intro unread
    rw [hears, if_pos again, bytes]
  have fresh : hearsAll [] [script] = .ok [packet] := by
    have orderly : Inbox.Orderly packet.encode :=
      (@Inbox.orderly_of_stream _ _ []) (by rw [alone, List.append_nil]) (by rw [alone, size]; decide)
    have drains : Packet.codec.drain packet.encode = ([packet], []) :=
      Packet.codec.drain_eq (by rw [alone, List.append_nil]) Packet.codec.next_nil
    have reads := Inbox.extractBytes_orderly orderly (Nat.lt_succ_self _)
    rw [hearsAll_single, heard, List.nil_append, reads, drains]
  rw [fresh, hearsAll_single, heard]
  intro same
  cases reads : Inbox.extractBytes ((first :: rest ++ packet.encode).length + 1) (first :: rest ++ packet.encode) with
  | error halt =>
    rw [reads] at same
    cases same
  | ok result =>
    obtain ⟨packets, left⟩ := result
    rw [reads] at same
    cases same
    -- The type read first begins with the first unread byte.
    have read : type = decodeInt ((first :: rest ++ packet.encode).take 4) := Inbox.extractBytes_type reads
    have front : ((first :: rest ++ packet.encode).take 4).length = 4 := by
      rw [List.length_take, List.length_append, size, List.length_cons]
      omega
    have bytesRead := congrArg encodeInt read
    rw [encodeInt_decodeInt rfl, encodeInt_decodeInt front] at bytesRead
    simp only [List.cons_append, List.take_succ_cons, List.cons.injEq] at bytesRead
    have shifted : first + 1 = first := bytesRead.1
    simp at shifted

/-- After any first connection, however it ended, what is decoded from the next
one is what a fresh client decodes from it, for every sequence of receptions, if
and only if the partial message holds no unread byte when that connection is
made. -/
theorem second_connection_as_fresh_iff (operations : List Operation) (number : Int)
    (first : (inTurn (operations.map perform)).run ⟨.new, number, []⟩ = .ok () before)
    (room : before.object.tmpMsg.buffer.buffer.bytes.length + 12 ≤ maxSize)
    (connected : (connect script address port).run before = .ok () second) :
    ∃ fresh, (connect script address port).run { before with object := .new } = .ok () fresh ∧
      ((∀ scripts, Room second scripts → decoded scripts second = decoded scripts fresh) ↔
        before.object.tmpMsg.unread = []) := by
  have valid := (run_sound operations (.start number) first).inside
  obtain ⟨fd, rfl⟩ := connect_established connected
  refine ⟨_, connect_run fd address port _, ?_⟩
  rw [connect_run] at connected
  have pending : second.object.tmpMsg = before.object.tmpMsg := by
    cases connected
    rfl
  have left : ∀ scripts, Room second scripts →
      decoded scripts second = hearsAll before.object.tmpMsg.unread scripts := by
    intro scripts room
    rw [decoded_eq (by rw [pending]; exact valid) room, pending]
  have right : ∀ fresh : World Client, fresh.object.tmpMsg = .new → ∀ scripts, Room second scripts →
      decoded scripts fresh = hearsAll [] scripts := by
    intro fresh new scripts room
    rw [decoded_eq (by rw [new]; exact DataBuffer.empty_valid) _, new]
    · rfl
    · unfold Room at room ⊢
      rw [new]
      change 0 + _ ≤ maxSize
      omega
  constructor
  · intro alike
    cases leftover : before.object.tmpMsg.unread with
    | nil => rfl
    | cons byte rest =>
      obtain ⟨reception, size, differs⟩ := heard_behind_leftover byte rest
      have roomy : Room second [reception] := by
        unfold Room
        rw [pending]
        simpa [size] using room
      have same := alike [reception] roomy
      rw [left _ roomy, right _ rfl _ roomy, leftover] at same
      exact absurd same differs
  · intro nothing scripts room
    rw [left scripts room, right _ rfl scripts room, nothing]

end Isolation

section Witnesses

attribute [local instance] Platform.littleEndian

/-- A connection that can be made, on descriptor 5. -/
def established : ConnectScript := ⟨.opened 5, true, none⟩

/-- A first connection on which two frames of type 7 are received, the first in two
pieces. -/
theorem second_connection_after_whole_frames :
    ∃ before second fresh,
      (inTurn ([.connect established "localhost" 8080,
        .update true [⟨[⟨[7, 0, 0, 0], by decide, by decide⟩], .failed EAGAIN⟩,
          ⟨[⟨[0, 0, 0, 0, 0, 0, 0, 0, 7, 0, 0, 0, 1, 0, 0, 0, 0, 0, 0, 0, 42], by decide, by decide⟩],
            .failed EAGAIN⟩] fun _ _ => .idle,
        .disconnect].map perform)).run ⟨.new, 0, []⟩ = .ok () before ∧
      before.object.tmpMsg.buffer.buffer.bytes.length = 25 ∧
      (connect established "localhost" 8080).run before = .ok () second ∧
      (connect established "localhost" 8080).run { before with object := .new } = .ok () fresh ∧
      ∀ scripts, Room second scripts → decoded scripts second = decoded scripts fresh := by
  have first : (inTurn ([Operation.connect established "localhost" 8080,
      .update true [⟨[⟨[7, 0, 0, 0], by decide, by decide⟩], .failed EAGAIN⟩,
        ⟨[⟨[0, 0, 0, 0, 0, 0, 0, 0, 7, 0, 0, 0, 1, 0, 0, 0, 0, 0, 0, 0, 42], by decide, by decide⟩],
          .failed EAGAIN⟩] fun _ _ => .idle,
      .disconnect].map perform)).run ⟨.new, 0, []⟩ = .ok () _ := run_exitState (by decide +kernel)
  obtain ⟨fresh, made, alike⟩ := second_connection_as_fresh_iff _ 0 first (by decide +kernel) (connect_run 5 "localhost" 8080 _)
  exact ⟨_, _, fresh, first, by decide +kernel, connect_run 5 "localhost" 8080 _, made, alike.mpr (by decide +kernel)⟩

/-- A first connection that is left after one byte of a frame. The frame of
type 7 received next is read as one of type 1793 = 1 + 7 * 256. -/
theorem second_connection_inherits_byte :
    ∃ before second fresh,
      (inTurn ([.connect established "localhost" 8080,
        .update true [⟨[⟨[1], by decide, by decide⟩], .failed EAGAIN⟩] fun _ _ => .idle,
        .disconnect].map perform)).run ⟨.new, 0, []⟩ = .ok () before ∧
      (connect established "localhost" 8080).run before = .ok () second ∧
      (connect established "localhost" 8080).run { before with object := .new } = .ok () fresh ∧
      ¬ ∀ scripts, Room second scripts → decoded scripts second = decoded scripts fresh :=
  ⟨_, _, _, rfl, rfl, rfl, fun alike => absurd
    (alike [⟨[⟨[7, 0, 0, 0, 0, 0, 0, 0, 0, 0, 0, 0], by decide, by decide⟩], .failed EAGAIN⟩]
      (by decide +kernel)) (by decide +kernel)⟩

end Witnesses

end Client
end Libftpp
