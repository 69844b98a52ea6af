import Libftpp.Client
import Libftpp.ServerRegistry

/-! What both sides put on a connection. A message is serialized into one frame
and handed to `::send` once; what `::send` does not take over is never sent.
After every send the connection therefore carries whole frames exactly as long
as `::send` takes over all of a frame or nothing. -/
namespace Libftpp
open Program World StreamDecoding

/-- What a `::send` puts on the connection. -/
def SendResult.taken (frame : List UInt8) : SendResult → List UInt8
  | .took count => frame.take count
  | .failed _ => []

/-- It takes over all of the frame or nothing. -/
def SendResult.Clean (frame : List UInt8) (result : SendResult) : Prop :=
  result = .took frame.length ∨ ∃ errno, result = .failed errno

instance (frame : List UInt8) (result : SendResult) : Decidable (result.Clean frame) :=
  match result with
  | .took count =>
    decidable_of_iff (count = frame.length) ⟨fun all => Or.inl (by rw [all]), by rintro (same | ⟨_, same⟩) <;> cases same; rfl⟩
  | .failed errno => isTrue (Or.inr ⟨errno, rfl⟩)

instance (requested : Nat) (result : SendResult) : Decidable (result.Allowed requested) :=
  match result with
  | .took count => inferInstanceAs (Decidable (1 ≤ count ∧ count ≤ requested))
  | .failed _ => isTrue trivial

/-- The bytes a log puts on a descriptor. -/
def written (fd : Int) (log : List Event) : List UInt8 :=
  log.flatMap fun event =>
    match event with
    | .sent other bytes => if other = fd then bytes else []
    | _ => []

theorem written_append (fd : Int) (log events : List Event) :
    written fd (log ++ events) = written fd log ++ written fd events := List.flatMap_append ..

/-- One frame given to `::send`, and what it returned. -/
structure Attempt where
  frame : List UInt8
  result : SendResult

/-- The bytes a sequence of attempts puts on a connection. -/
def Attempt.bytes (attempts : List Attempt) : List UInt8 :=
  attempts.flatMap fun attempt => attempt.result.taken attempt.frame

/-- What the attempts that were not refused have sent. -/
def Attempt.frames (attempts : List Attempt) : List (List UInt8) :=
  attempts.filterMap fun attempt =>
    match attempt.result with
    | .took _ => some attempt.frame
    | .failed _ => none

namespace Attempt

theorem frames_sublist (attempts : List Attempt) : (frames attempts).Sublist (attempts.map Attempt.frame) := by
  induction attempts with
  | nil => exact .slnil
  | cons attempt attempts ih =>
    obtain ⟨frame, result⟩ := attempt
    cases result with
    | took count => exact ih.cons_cons frame
    | failed errno => exact ih.cons frame

/-- Clean attempts put whole frames on the connection. -/
theorem bytes_of_clean {attempts : List Attempt} (clean : ∀ attempt ∈ attempts, attempt.result.Clean attempt.frame) :
    bytes attempts = (frames attempts).flatten := by
  induction attempts with
  | nil => rfl
  | cons attempt attempts ih =>
    have rest := ih fun other member => clean other (List.mem_cons_of_mem _ member)
    obtain ⟨frame, result⟩ := attempt
    change result.taken frame ++ bytes attempts = _
    rw [rest]
    have first : result = .took frame.length ∨ ∃ errno, result = .failed errno := clean _ (List.mem_cons_self ..)
    rcases first with rfl | ⟨errno, rfl⟩
    · rw [SendResult.taken, List.take_length]
      rfl
    · rfl

section Whole
variable [Platform]

/-- Attempts after each of which the connection carries whole frames are clean:
the first one that is not leaves a part of a frame at the end. -/
theorem clean_of_bytes {attempts : List Attempt}
    (encoded : ∀ attempt ∈ attempts, ∃ packet : Packet, attempt.frame = packet.encode)
    (allowed : ∀ attempt ∈ attempts, attempt.result.Allowed attempt.frame.length)
    (whole : ∀ count, ∃ packets : List Packet, bytes (attempts.take count) = Packet.codec.encodeAll packets) :
    ∀ attempt ∈ attempts, attempt.result.Clean attempt.frame := by
  intro attempt member
  obtain ⟨index, inside, rfl⟩ := List.mem_iff_getElem.mp member
  obtain ⟨before, carried⟩ := whole index
  obtain ⟨after, carries⟩ := whole (index + 1)
  obtain ⟨packet, frame⟩ := encoded attempts[index] member
  rw [List.take_succ_eq_append_getElem inside, bytes, List.flatMap_append] at carries
  change bytes (attempts.take index) ++ _ = _ at carries
  rw [carried, List.flatMap_singleton] at carries
  cases result : attempts[index].result with
  | failed errno => exact Or.inr ⟨errno, rfl⟩
  | took count =>
    have limits := allowed attempts[index] member
    rw [result] at limits carries
    by_cases all : count = attempts[index].frame.length
    · exact Or.inl (by rw [all])
    · -- Between nothing and all of the frame: the stream breaks off inside it.
      have cut : packet.encode = attempts[index].frame.take count ++ attempts[index].frame.drop count := by
        rw [List.take_append_drop, frame]
      refine absurd carries (Packet.codec.encodeAll_ne_of_cut cut ?_ ?_ before after)
      · refine List.ne_nil_of_length_pos ?_
        rw [List.length_take]
        exact Nat.lt_min.mpr ⟨limits.1, Nat.lt_of_lt_of_le limits.1 limits.2⟩
      · refine List.ne_nil_of_length_pos ?_
        rw [List.length_drop]
        exact Nat.sub_pos_of_lt (Nat.lt_of_le_of_ne limits.2 all)

end Whole

end Attempt

/-- After any number of these sends, or where one of them goes on to something
that has no meaning, they have put whole frames of a part of the messages on the
connection, in order. -/
def WholeFrames (fd : Int) (frames : List (List UInt8)) (sends : List (Call σ Unit)) (world : World σ) : Prop :=
  ∀ count, ∃ after, ∃ kept : List (List UInt8), Attains ((sends.take count).forM id) world after ∧
    kept.Sublist (frames.take count) ∧ written fd after.log = written fd world.log ++ kept.flatten

/-- The frames and what `::send` returned for them. -/
def attempts (frames : List (List UInt8)) (results : List SendResult) : List Attempt :=
  List.zipWith Attempt.mk frames results

section Connections
variable [Platform]

omit [Platform] in
theorem attempts_frames (frames : List (List UInt8)) (results : List SendResult) :
    (attempts frames results).map Attempt.frame <+: frames := by
  induction frames generalizing results with
  | nil => exact List.prefix_rfl
  | cons frame frames ih =>
    cases results with
    | nil => exact List.nil_prefix
    | cons result results => exact List.cons_prefix_cons.mpr ⟨rfl, ih results⟩

/-- Whatever is attempted one after the other: the connection carries whole
frames after every send exactly when all attempts are clean. -/
theorem carries_whole_iff {packets : List Packet} {tries : List Attempt} {sends : List (Call σ Unit)} {world : World σ} {fd : Int}
    (runs : ∀ count, ∃ after, Attains ((sends.take count).forM id) world after ∧
      written fd after.log = written fd world.log ++ Attempt.bytes (tries.take count))
    (encoded : frames = packets.map Packet.encode) (tried : tries.map Attempt.frame <+: frames)
    (allowed : ∀ attempt ∈ tries, attempt.result.Allowed attempt.frame.length) :
    WholeFrames fd frames sends world ↔ ∀ attempt ∈ tries, attempt.result.Clean attempt.frame := by
  constructor
  · intro whole
    apply Attempt.clean_of_bytes _ allowed
    · intro count
      obtain ⟨after, ran, bytes⟩ := runs count
      obtain ⟨_, kept, again, part, carries⟩ := whole count
      cases ran.unique again
      rw [bytes, List.append_cancel_left_eq] at carries
      rw [encoded] at part
      obtain ⟨said, _, rfl⟩ := List.sublist_map_iff.mp (part.trans (List.take_sublist ..))
      exact ⟨said, carries.trans (List.flatMap_def ..).symm⟩
    · intro attempt member
      have sent := tried.subset (List.mem_map_of_mem member)
      rw [encoded] at sent
      obtain ⟨packet, _, same⟩ := List.mem_map.mp sent
      exact ⟨packet, same.symm⟩
  · intro clean count
    obtain ⟨after, ran, bytes⟩ := runs count
    refine ⟨after, Attempt.frames (tries.take count), ran, ?_, ?_⟩
    · have part := Attempt.frames_sublist (tries.take count)
      rw [List.map_take] at part
      exact part.trans (tried.take count).sublist
    · rw [bytes, Attempt.bytes_of_clean fun attempt member => clean attempt (List.mem_of_mem_take member)]

namespace Client

/-- These messages are sent one after the other. -/
def sendAll (messages : List Message) (results : List SendResult) : List (Call Client Unit) :=
  List.zipWith send messages results

theorem send_run {world : World Client} (ran : Message.getSerializedData.run message = .ok frame message)
    (connected : 0 ≤ world.object.fd) :
    ∃ after, (send message result).run world = .ok () after ∧ after.object = world.object ∧
      written world.object.fd after.log = written world.object.fd world.log ++ result.taken frame := by
  have serialized : (observe message Message.getSerializedData : Call Client _).run world = .ok frame world := by
    rw [run_observe, ran]
  have usable : ¬ world.object.fd < 0 := not_lt.mpr connected
  cases result with
  | took count =>
    refine ⟨{ world with log := world.log ++ [.sent world.object.fd (frame.take count)] },
      by simp [send, serialized, usable], rfl, ?_⟩
    rw [written_append]
    simp [written, SendResult.taken]
  | failed errno =>
    refine ⟨{ world with errno }, by simp [send, serialized, usable], rfl, ?_⟩
    exact (List.append_nil _).symm

theorem sendAll_run {world : World Client} (framed : Message.Frames messages frames)
    (connected : 0 ≤ world.object.fd) (results : List SendResult) :
    ∃ after, Attains ((sendAll messages results).forM id) world after ∧
      written world.object.fd after.log =
        written world.object.fd world.log ++ Attempt.bytes (attempts frames results) := by
  induction framed generalizing world results with
  | nil => exact ⟨world, Or.inl ⟨(), rfl⟩, (List.append_nil _).symm⟩
  | @cons message frame messages frames ran rest ih =>
    cases results with
    | nil => exact ⟨world, Or.inl ⟨(), rfl⟩, (List.append_nil _).symm⟩
    | cons result results =>
      obtain ⟨middle, sends, object, bytes⟩ := (@send_run _ _ _ result) ran connected
      obtain ⟨after, others, more⟩ := @ih middle (by rw [object]; exact connected) results
      refine ⟨after, .past (fun _ => (sendAll messages results).forM id) sends others, ?_⟩
      rw [object] at more
      rw [more, bytes, List.append_assoc]
      rfl

end Client

namespace Server

/-- The client is known by its descriptor and its ID, and watched. -/
def Registered (server : Server) (fd clientId : Int) : Prop :=
  server.fdOf clientId = some fd ∧ server.clientOf fd = some clientId ∧ fd ∈ server.active.fds

/-- These messages are sent to one client one after the other. -/
def sendAllTo (clientId : Int) (messages : List Message) (results : List SendResult) : List (Call Server Unit) :=
  List.zipWith (sendTo · clientId ·) messages results

section Known
variable {fd clientId : Int} {world : World Server}

/-- A `sendTo` to a known client is its `::send` and what follows from it. -/
theorem sendTo_known (registered : world.object.Registered fd clientId)
    (ran : Message.getSerializedData.run message = .ok frame message) (result : SendResult) :
    (sendTo message clientId result).run world =
      (match result with
        | .took count => emit (.sent fd (frame.take count))
        | .failed errno => do
          setErrno errno
          clearClient (.entry clientId)
          emit (.printed ("Failed to send message to client " ++ toString clientId ++ "\n")) :
        Call Server Unit).run world := by
  obtain ⟨listed, _, watched⟩ := registered
  have serialized : (observe message Message.getSerializedData : Call Server _).run world = .ok frame world := by
    rw [run_observe, ran]
  have selectable := world.object.active.inside fd watched
  have sized : frame ≠ [] := by
    rw [(Message.getSerializedData_returns ran).2.2]
    exact Packet.codec.nonempty _
  rw [sendTo, EStateM.run_bind, EStateM.run_get]
  cases result
  all_goals
    simp only [listed, selectable, watched, not_true_eq_false, ↓reduceIte, EStateM.run_bind, serialized, sized]

theorem sendTo_took (registered : world.object.Registered fd clientId)
    (ran : Message.getSerializedData.run message = .ok frame message) (count : Nat) :
    (sendTo message clientId (.took count)).run world =
      .ok () { world with log := world.log ++ [.sent fd (frame.take count)] } := by
  rw [sendTo_known registered ran]
  rfl

/-- After a failure the client is taken out of the registry, and the reference to
its erased entry is read once more. -/
theorem sendTo_failed (registered : world.object.Registered fd clientId)
    (ran : Message.getSerializedData.run message = .ok frame message) (errno : Int) :
    (sendTo message clientId (.failed errno)).run world =
      .error .undefined (unregistered { world with errno } fd clientId) := by
  have dangles := (@clearClient_dangles fd clientId { world with errno }) registered.1 registered.2.1
  rw [sendTo_known registered ran]
  simp only [EStateM.run_bind, run_setErrno, dangles]

omit [Platform] in
theorem written_unregistered (world : World Server) (fd clientId other : Int) :
    written other (unregistered world fd clientId).log = written other world.log := by
  rw [unregistered, written_append]
  by_cases owned : fd > 2 <;> simp [owned, written]

/-- The attempts that are made: the client is given up at the first failure. -/
def made : List Attempt → List Attempt
  | [] => []
  | ⟨frame, .took count⟩ :: later => ⟨frame, .took count⟩ :: made later
  | ⟨frame, .failed errno⟩ :: _ => [⟨frame, .failed errno⟩]

theorem sendAllTo_run (framed : Message.Frames messages frames) (registered : world.object.Registered fd clientId)
    (results : List SendResult) :
    ∃ after, Attains ((sendAllTo clientId messages results).forM id) world after ∧
      written fd after.log = written fd world.log ++ Attempt.bytes (made (attempts frames results)) := by
  induction framed generalizing world results with
  | nil => exact ⟨world, Or.inl ⟨(), rfl⟩, (List.append_nil _).symm⟩
  | @cons message frame messages frames ran rest ih =>
    cases results with
    | nil => exact ⟨world, Or.inl ⟨(), rfl⟩, (List.append_nil _).symm⟩
    | cons result results =>
      cases result with
      | took count =>
        obtain ⟨after, others, more⟩ :=
          @ih { world with log := world.log ++ [.sent fd (frame.take count)] } registered results
        have all := Attains.past (fun _ => (sendAllTo clientId messages results).forM id)
          (sendTo_took registered ran count) others
        refine ⟨after, all, ?_⟩
        rw [more, written_append, List.append_assoc]
        simp [written, attempts, made, Attempt.bytes, SendResult.taken]
      | failed errno =>
        refine ⟨_, .of_undefined _ (sendTo_failed registered ran errno), ?_⟩
        rw [written_unregistered]
        exact (List.append_nil _).symm

end Known

omit [Platform] in
theorem made_take (attempts : List Attempt) (count : Nat) : made (attempts.take count) = (made attempts).take count := by
  induction attempts generalizing count with
  | nil => simp [made]
  | cons attempt attempts ih =>
    obtain ⟨frame, result⟩ := attempt
    cases count with
    | zero => rfl
    | succ count =>
      cases result with
      | took size => simp [made, ih]
      | failed errno => simp [made]

omit [Platform] in
theorem made_prefix (attempts : List Attempt) : made attempts <+: attempts := by
  induction attempts with
  | nil => exact List.prefix_rfl
  | cons attempt attempts ih =>
    obtain ⟨frame, result⟩ := attempt
    cases result with
    | took size => exact List.cons_prefix_cons.mpr ⟨rfl, ih⟩
    | failed errno => exact List.prefix_iff_eq_append.mpr rfl

end Server

/-- Messages are sent by a connected client, or by a server to one registered
client. On either side the connection carries whole frames of them after every
send if and only if each `::send` that is made takes over all of its frame or
fails. -/
theorem whole_frames_iff {messages : List Message} {frames : List (List UInt8)} {client : World Client} {server : World Server}
    {fd clientId : Int} (framed : Message.Frames messages frames) (results : List SendResult)
    (allowed : ∀ attempt ∈ attempts frames results, attempt.result.Allowed attempt.frame.length)
    (connected : 0 ≤ client.object.fd) (registered : server.object.Registered fd clientId) :
    (WholeFrames client.object.fd frames (Client.sendAll messages results) client ↔
        ∀ attempt ∈ attempts frames results, attempt.result.Clean attempt.frame) ∧
      (WholeFrames fd frames (Server.sendAllTo clientId messages results) server ↔
        ∀ attempt ∈ Server.made (attempts frames results), attempt.result.Clean attempt.frame) := by
  have encoded := Message.frames_encode framed
  have prefixes : ∀ count, Message.Frames (messages.take count) (frames.take count) :=
    fun count => List.forall₂_take count framed
  have tried := attempts_frames frames results
  have made := Server.made_prefix (attempts frames results)
  constructor
  · apply carries_whole_iff _ encoded tried allowed
    intro count
    rw [Client.sendAll, attempts, List.take_zipWith, List.take_zipWith]
    exact Client.sendAll_run (prefixes count) connected _
  · apply carries_whole_iff _ encoded ((made.map _).trans tried) fun attempt member => allowed attempt (made.subset member)
    intro count
    rw [← Server.made_take, Server.sendAllTo, attempts, List.take_zipWith, List.take_zipWith]
    exact Server.sendAllTo_run (prefixes count) registered _

end Connections

section Witnesses

attribute [local instance] Platform.littleEndian

/-- A client connected on descriptor 5. -/
def connectedClient : World Client := ⟨{ Client.new with fd := 5 }, 0, []⟩

theorem selectable_five : Selectable 5 := by decide

/-- A server to which client 0 is connected on descriptor 5. -/
def connectedServer : World Server :=
  ⟨(Server.new "" 8080 .zero .zero).register 5 selectable_five, 0, []⟩

/-- Two messages of type 7 without payload. -/
def twoMessages : List Message := [⟨none, 7, .empty⟩, ⟨none, 7, .empty⟩]

/-- Their frames. -/
def twoFrames : List (List UInt8) := [[7, 0, 0, 0, 0, 0, 0, 0, 0, 0, 0, 0], [7, 0, 0, 0, 0, 0, 0, 0, 0, 0, 0, 0]]

/-- Both are sent in full. -/
theorem whole_frames_two_messages :
    WholeFrames 5 twoFrames (Client.sendAll twoMessages [.took 12, .took 12]) connectedClient ∧
      WholeFrames 5 twoFrames (Server.sendAllTo 0 twoMessages [.took 12, .took 12]) connectedServer := by
  have both := @whole_frames_iff _ twoMessages twoFrames connectedClient connectedServer 5 0 (.cons rfl (.cons rfl .nil))
    [.took 12, .took 12] (by decide) (by decide) ⟨by decide, by decide, by decide⟩
  exact ⟨both.1.mpr (by decide), both.2.mpr (by decide)⟩

/-- Of the first frame, `::send` takes over three bytes. Whoever sent it, they
are no whole number of frames. -/
theorem short_write_breaks_frame :
    ¬ WholeFrames 5 twoFrames (Client.sendAll twoMessages [.took 3, .took 12]) connectedClient ∧
      ¬ WholeFrames 5 twoFrames (Server.sendAllTo 0 twoMessages [.took 3, .took 12]) connectedServer := by
  have lengths : ∀ kept : List (List UInt8), kept.Sublist (twoFrames.take 1) → kept.flatten.length ≠ 3 := by
    intro kept part
    rcases List.sublist_singleton.mp part with rfl | rfl <;> decide
  constructor
  · intro whole
    obtain ⟨after, kept, ran, part, carries⟩ := whole 1
    have three : (exitState (((Client.sendAll twoMessages [.took 3, .took 12]).take 1).forM id)
        connectedClient).map (fun after => (written 5 after.log).length) = some 3 := by decide +kernel
    obtain ⟨final, exits, three⟩ := Option.map_eq_some_iff.mp three
    cases ran.unique (.of_exitState exits)
    rw [carries] at three
    exact lengths kept part three
  · intro whole
    obtain ⟨after, kept, ran, part, carries⟩ := whole 1
    have three : (exitState (((Server.sendAllTo 0 twoMessages [.took 3, .took 12]).take 1).forM id)
        connectedServer).map (fun after => (written 5 after.log).length) = some 3 := by decide +kernel
    obtain ⟨final, exits, three⟩ := Option.map_eq_some_iff.mp three
    cases ran.unique (.of_exitState exits)
    rw [carries] at three
    exact lengths kept part three

end Witnesses
end Libftpp
