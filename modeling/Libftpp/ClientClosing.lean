import Libftpp.ClientRuns

/-! What becomes of the messages a server sent before it closed the connection.
The reception that sees the end-of-file returns without decoding, so of what
arrived in it, and of what was incomplete until then, nothing is dispatched;
everything complete before it is. -/
namespace Libftpp
open Program World StreamDecoding

namespace Client

/-- The packet with this number went to this action. -/
def Handed (books : Ledger) (serial slot action : Nat) (packet : Packet) : Prop :=
  ∃ pass ∈ books.passes, pass.serial = serial ∧ pass.slot = slot ∧ pass.action = action ∧
    Says packet pass.message

/-- Every packet of the list went to every action registered for its type. -/
def AllHanded (client : Client) (packets : List Packet) (books : Ledger) : Prop :=
  ∀ index packet, packets[index]? = some packet →
    ∀ slot action, (client.registered packet.type)[slot]? = some action →
      Handed books index slot action packet

/-- A client that has decoded these packets so far: some have been handed to
their actions and dropped, the others are queued. -/
structure Account (client : Client) (done queued : List Packet) (world : World Client) : Prop where
  triggers : world.object.triggers = client.triggers
  queue : List.Forall₂ Says queued world.object.msgs
  counted : (ledger world.log).waiting.length = world.object.msgs.length
  dropped : (ledger world.log).dropped = done.length
  known : ∀ pass ∈ (ledger world.log).passes, pass.serial < (done ++ queued).length
  handed : AllHanded client done (ledger world.log)

theorem Handed.grown (handed : Handed books serial slot action packet)
    (grown : ∀ pass ∈ books.passes, pass ∈ later.passes) : Handed later serial slot action packet := by
  obtain ⟨pass, member, facts⟩ := handed
  exact ⟨pass, grown pass member, facts⟩

theorem registered_of_triggers {first second : Client} (same : first.triggers = second.triggers)
    (messageType : Int32) : first.registered messageType = second.registered messageType := by
  rw [registered, registered, triggersOf, triggersOf, same]

/-- Reading on in queued messages does not change what they say. -/
theorem says_trans (queue : List.Forall₂ Says packets before)
    (alike : List.Forall₂ Message.SameContent before after) : List.Forall₂ Says packets after := by
  induction queue generalizing after with
  | nil =>
    cases alike
    exact .nil
  | cons head _ ih =>
    cases alike with
    | cons same rest =>
      exact .cons (head.trans same) (ih rest)

/-- Further packets are decoded and queued. -/
theorem Account.received (account : Account client done queued world) (received : Received world after)
    (queue : after.object.msgs = world.object.msgs ++ fresh) (untouched : ∀ message ∈ fresh, message.Untouched) :
    Account client done (queued ++ fresh.map Message.packet) after := by
  constructor
  · exact received.triggers.trans account.triggers
  · rw [queue]
    apply List.rel_append account.queue
    rw [List.forall₂_map_left_iff]
    exact List.forall₂_same.mpr fun message member => (untouched message member).told
  · exact received.counted account.counted
  · exact received.dropped.trans account.dropped
  · intro pass member
    rw [received.passes] at member
    have bound := account.known pass member
    rw [List.length_append] at bound ⊢
    rw [List.length_append]
    omega
  · intro index packet shape slot action registers
    apply (account.handed index packet shape slot action registers).grown
    rw [received.passes]
    exact fun _ => id

/-- The account at the start of a dispatch loop bounds what the loop can pass. -/
theorem Account.known_after {books : Ledger} (account : Account client done queued world)
    (known : ∀ pass ∈ books.passes, pass ∈ (ledger (world.log ++ [.dispatching])).passes ∨
      pass.serial < (ledger (world.log ++ [.dispatching])).dropped + world.object.msgs.length) :
    ∀ pass ∈ books.passes, pass.serial < (done ++ queued).length := by
  intro pass member
  have size := account.queue.length_eq
  rcases known pass member with old | new
  · rw [ledger_snoc] at old
    exact account.known pass old
  · rw [ledger_snoc] at new
    change pass.serial < (ledger world.log).dropped + world.object.msgs.length at new
    rw [account.dropped] at new
    rw [List.length_append]
    omega

/-- An exception leaves the account as it was. -/
theorem Account.abandoned (account : Account client done queued world)
    (abandoned : Abandoned { world with log := world.log ++ [.dispatching] } after) :
    Account client done queued after := by
  constructor
  · rw [abandoned.kept]
    exact account.triggers
  · exact says_trans account.queue abandoned.alike
  · rw [abandoned.waiting, ← abandoned.alike.length_eq, ledger_snoc]
    exact account.counted
  · rw [abandoned.dropped, ledger_snoc]
    exact account.dropped
  · exact account.known_after abandoned.known
  · intro index packet shape slot action registers
    apply (account.handed index packet shape slot action registers).grown
    intro pass member
    apply abandoned.grown
    rw [ledger_snoc]
    exact member

/-- A dispatch loop that returns hands over everything that was queued. -/
theorem Account.dispatched (account : Account client done queued world)
    (dispatched : Dispatched { world with log := world.log ++ [.dispatching] } after) :
    Account client (done ++ queued) [] after := by
  have size := account.queue.length_eq
  constructor
  · rw [dispatched.kept]
    exact account.triggers
  · rw [dispatched.kept]
    exact .nil
  · rw [dispatched.waiting, dispatched.kept]
    rfl
  · rw [dispatched.dropped, ledger_snoc, List.length_append, size, ← account.counted, ← account.dropped]
    rfl
  · rw [List.append_nil]
    exact account.known_after dispatched.known
  · intro index packet shape slot action registers
    by_cases old : index < done.length
    · rw [List.getElem?_append_left old] at shape
      apply (account.handed index packet shape slot action registers).grown
      intro pass member
      apply dispatched.grown
      rw [ledger_snoc]
      exact member
    · have beyond : done.length ≤ index := Nat.le_of_not_lt old
      rw [List.getElem?_append_right beyond] at shape
      obtain ⟨inside, rfl⟩ := List.getElem?_eq_some_iff.mp shape
      have bound : index - done.length < world.object.msgs.length := by omega
      have told := account.queue.get inside bound
      have type : queued[index - done.length].type = world.object.msgs[index - done.length].type := told.1.symm
      obtain ⟨pass, passed, serial, place, acted, again⟩ := dispatched.covered _ _
        (List.getElem?_eq_getElem bound) slot action (by
          rw [← registers, type]
          exact congrArg (·[slot]?) (registered_of_triggers account.triggers _))
      refine ⟨pass, passed, ?_, place, acted, told.trans again⟩
      rw [serial, ledger_snoc]
      change (ledger world.log).dropped + _ = index
      rw [account.dropped]
      omega

/-! ### Receiving while the connection stays open -/

/-- A reception that ends because nothing more is there. -/
def again (chunks : List (Chunk MAX_READ_BUFFER)) : RecvScript MAX_READ_BUFFER :=
  ⟨chunks, .failed EAGAIN⟩

/-- The descriptor stays what it was. -/
def Steady (before after : World Client) : Prop := after.object.fd = before.object.fd

theorem steady_of_steps (steps : Relation.ReflTransGen Steady before after) :
    after.object.fd = before.object.fd := by
  induction steps with
  | refl => rfl
  | tail _ step ih => exact step.trans ih

theorem receiveChunks_steady (chunks : List (Chunk MAX_READ_BUFFER)) :
    StepsThrough Steady (receiveChunks chunks) := by
  induction chunks with
  | nil => exact .pure _
  | cons chunk chunks ih =>
    apply StepsThrough.bind .get
    intro world
    apply StepsThrough.bind
    · exact .modify fun _ => rfl
    · intro _
      refine StepsThrough.bind ?_ fun _ => ih
      intro before after left
      obtain ⟨pending, _, rfl⟩ := left.zoom
      exact .single rfl

section Closing
variable [Platform]

theorem receiveMessage_steady (chunks : List (Chunk MAX_READ_BUFFER)) :
    StepsThrough Steady (receiveMessage (again chunks)) := by
  apply StepsThrough.bind (receiveChunks_steady chunks)
  intro _
  apply StepsThrough.bind
  · exact .modify fun _ => rfl
  intro _
  apply StepsThrough.bind .get
  intro world
  apply StepsThrough.bind
  · intro before after left
    obtain ⟨inbox, _, rfl⟩ := left.zoom
    exact .single rfl
  intro _
  apply StepsThrough.bind .get
  intro _
  exact .modify fun _ => rfl

/-- As long as the connection stays open, the `select` loop receives and goes on. -/
theorem poll_again (opened : world.object.fd > 0) (selectable : Selectable world.object.fd)
    (ran : (receiveCalls calls).run world = .ok () middle) :
    (poll (calls.map again ++ rest)).run world = (poll rest).run middle ∧
      middle.object.fd = world.object.fd := by
  induction calls generalizing world with
  | nil =>
    cases ran
    exact ⟨rfl, rfl⟩
  | cons chunks calls ih =>
    obtain ⟨_, next, received, ran⟩ := bind_returns.mp ran
    have steady : next.object.fd = world.object.fd :=
      steady_of_steps (receiveMessage_steady chunks _ _ (.of_returns received))
    obtain ⟨goes, same⟩ := ih (by rwa [steady]) (by rwa [steady]) ran
    refine ⟨?_, same.trans steady⟩
    rw [← goes, List.map_cons, List.cons_append, poll, EStateM.run_bind, EStateM.run_get]
    simp only [opened, selectable, not_true_eq_false, ↓reduceIte, EStateM.run_bind]
    rw [show (receiveMessage (again chunks)).run world = .ok () next from received]

/-- A connected client that has received this much of a stream of frames. -/
structure Listening (client : Client) (arrived : List UInt8) (world : World Client) : Prop where
  fd : world.object.fd = client.fd
  inside : world.object.tmpMsg.Valid
  whole : world.object.tmpMsg.buffer.buffer.bytes = arrived
  unread : world.object.tmpMsg.unread = (Packet.codec.drain arrived).2
  account : ∃ done queued, Account client done queued world ∧
    done ++ queued = (Packet.codec.drain arrived).1

/-- A client that has just connected has heard nothing. -/
theorem listening_of_fresh (number : Int) (fresh : client.tmpMsg = .new) (empty : client.msgs = []) :
    Listening client [] ⟨client, number, []⟩ := by
  refine ⟨rfl, ?_, ?_, ?_, [], [], ⟨rfl, ?_, ?_, rfl, ?_, ?_⟩, ?_⟩
  · rw [fresh]
    exact DataBuffer.empty_valid
  · rw [fresh]
    rfl
  · rw [fresh, Packet.codec.drain_stuck Packet.codec.next_nil]
    rfl
  · rw [empty]
    exact .nil
  · rw [empty]
    rfl
  · intro pass member
    cases member
  · intro index packet shape
    cases shape
  · rw [Packet.codec.drain_stuck Packet.codec.next_nil]
    rfl

/-- Further receptions: everything that is complete by then is decoded. -/
theorem Listening.receive (listening : Listening client arrived world)
    (stream : arrived ++ calls.flatten.flatMap Chunk.bytes ++ later = Packet.codec.encodeAll packets)
    (small : (Packet.codec.encodeAll packets).length < 2 ^ 63) :
    ∃ after, (receiveCalls calls).run world = .ok () after ∧
      Listening client (arrived ++ calls.flatten.flatMap Chunk.bytes) after := by
  obtain ⟨shape, stuck⟩ := Packet.codec.drain_spec arrived
  have fits : world.object.tmpMsg.buffer.buffer.bytes.length + (calls.flatten.flatMap Chunk.bytes).length ≤ maxSize := by
    have size := congrArg List.length stream
    rw [List.length_append, List.length_append] at size
    rw [listening.whole]
    unfold maxSize
    omega
  have orderly : Inbox.Orderly (world.object.tmpMsg.unread ++ calls.flatten.flatMap Chunk.bytes) := by
    have all := Inbox.orderly_of_stream stream small
    rw [shape, List.append_assoc] at all
    rw [listening.unread]
    exact all.behindAll
  obtain ⟨after, pending, fresh, ran, object, holds, whole, drained, untouched⟩ :=
    receiveCalls_drains listening.inside (listening.unread ▸ stuck) fits orderly
  rw [listening.unread] at drained
  have steps := received_of_steps listening.inside (receiveCalls_steps calls _ _ (.of_returns ran))
  obtain ⟨done, queued, account, split⟩ := listening.account
  refine ⟨after, ran, ?_, ?_, ?_, ?_, ?_⟩
  · rw [object]
    exact listening.fd
  · rw [object]
    exact holds
  · rw [object, ← listening.whole]
    exact whole
  · rw [object, Packet.codec.drain_append, ← drained]
  · refine ⟨done, _, account.received steps (by rw [object]) untouched, ?_⟩
    rw [Packet.codec.drain_append, ← drained, ← split, List.append_assoc]

/-- An update during which the connection stays open, whatever its actions throw. -/
theorem Listening.after_update {calls : List (List (Chunk MAX_READ_BUFFER))} (listening : Listening client arrived world) (opened : client.fd > 0)
    (selectable : Selectable client.fd)
    (stream : arrived ++ calls.flatten.flatMap Chunk.bytes ++ later = Packet.codec.encodeAll packets)
    (small : (Packet.codec.encodeAll packets).length < 2 ^ 63)
    (left : Leaves (update true (calls.map again) react) world after) :
    Listening client (arrived ++ calls.flatten.flatMap Chunk.bytes) after := by
  obtain ⟨polled, received, heard⟩ := listening.receive stream small
  have polls : (poll (calls.map again)).run world = .ok () polled := by
    have goes := (@poll_again _ _ _ _ [] (by rw [listening.fd]; exact opened)
      (by rw [listening.fd]; exact selectable) received).1
    rw [List.append_nil] at goes
    rw [goes, poll, EStateM.run_bind, EStateM.run_get]
    simp only [heard.fd, opened, selectable, not_true_eq_false, ↓reduceIte]
    rfl
  have dispatches : (update true (calls.map again) react).run world = (dispatch react).run polled := by
    rw [update_connected (by rw [listening.fd]; exact opened), EStateM.run_bind, polls]
  obtain ⟨done, queued, account, split⟩ := heard.account
  have left : Leaves (dispatch react) polled after := by
    unfold Leaves at left ⊢
    rwa [dispatches] at left
  refine Meets.leaves ((dispatch_meets react polled).mono ?_ ?_) left
  · intro _ after dispatched
    refine ⟨?_, ?_, ?_, ?_, done ++ queued, [], account.dispatched dispatched, ?_⟩
    · rw [dispatched.kept]
      exact heard.fd
    · rw [dispatched.kept]
      exact heard.inside
    · rw [dispatched.kept]
      exact heard.whole
    · rw [dispatched.kept]
      exact heard.unread
    · rw [List.append_nil, split]
  · intro after abandoned
    refine ⟨?_, ?_, ?_, ?_, done, queued, account.abandoned abandoned, split⟩
    · rw [abandoned.kept]
      exact heard.fd
    · rw [abandoned.kept]
      exact heard.inside
    · rw [abandoned.kept]
      exact heard.whole
    · rw [abandoned.kept]
      exact heard.unread

/-- The update that sees the end-of-file hands over what was decoded before the
reception in which it came, and no more. -/
theorem Listening.after_closing {calls : List (List (Chunk MAX_READ_BUFFER))}
    (listening : Listening client arrived world) (opened : client.fd > 0) (selectable : Selectable client.fd)
    (stream : arrived ++ calls.flatten.flatMap Chunk.bytes ++ final.flatMap Chunk.bytes =
      Packet.codec.encodeAll packets)
    (small : (Packet.codec.encodeAll packets).length < 2 ^ 63)
    (ran : (update true (calls.map again ++ [⟨final, .endOfFile⟩]) react).run world = .ok () after) :
    AllHanded client (Packet.codec.drain (arrived ++ calls.flatten.flatMap Chunk.bytes)).1 (ledger after.log) ∧
      ∀ pass ∈ (ledger after.log).passes,
        pass.serial < (Packet.codec.drain (arrived ++ calls.flatten.flatMap Chunk.bytes)).1.length := by
  obtain ⟨polled, received, heard⟩ := listening.receive stream small
  have fits : polled.object.tmpMsg.buffer.buffer.bytes.length + (final.flatMap Chunk.bytes).length ≤ maxSize := by
    have size := congrArg List.length stream
    rw [List.length_append] at size
    rw [heard.whole]
    unfold maxSize
    omega
  obtain ⟨pending, closes, _⟩ :=
    (@receiveMessage_endOfFile _ ⟨final, .endOfFile⟩) heard.inside fits rfl
  generalize shape : disconnected _ = closed at closes
  have object : closed.object = { polled.object with tmpMsg := pending, fd := -1 } := by
    rw [← shape]
    rfl
  have polls : (poll (calls.map again ++ [⟨final, .endOfFile⟩])).run world = .ok () closed := by
    rw [(poll_again (by rw [listening.fd]; exact opened) (by rw [listening.fd]; exact selectable) received).1,
      poll, EStateM.run_bind, EStateM.run_get]
    simp only [heard.fd, opened, selectable, not_true_eq_false, ↓reduceIte, EStateM.run_bind, closes]
    rw [poll, EStateM.run_bind, EStateM.run_get]
    simp only [object]
    rfl
  rw [update_connected (by rw [listening.fd]; exact opened), EStateM.run_bind, polls] at ran
  obtain ⟨done, queued, account, split⟩ := heard.account
  have steps := received_of_steps heard.inside (receiveMessage_steps _ _ _ (.of_returns closes))
  have kept := @Account.received _ _ _ _ _ [] account steps (by rw [object, List.append_nil]) (List.forall_mem_nil _)
  rw [List.map_nil, List.append_nil] at kept
  have handed := kept.dispatched ((dispatch_meets react closed).1 () after ran)
  rw [split] at handed
  refine ⟨handed.handed, fun pass member => ?_⟩
  have bound := handed.known pass member
  rwa [List.append_nil] at bound

/-- An update while the connection stays open: its receptions, each of which
ends because nothing more is there, and what its actions do. -/
structure OpenUpdate where
  calls : List (List (Chunk MAX_READ_BUFFER))
  react : Nat → Nat → Reaction (Message × SendResult)

/-- Everything received in these updates. -/
def OpenUpdate.bytes (updates : List OpenUpdate) : List UInt8 :=
  updates.flatMap fun update => update.calls.flatten.flatMap Chunk.bytes

def OpenUpdate.perform (opened : OpenUpdate) : Call Client Unit :=
  update true (opened.calls.map again) opened.react

/-- Updates whose exceptions the caller catches, and then the update that, after
a few receptions more, sees these chunks and the end-of-file. -/
def session (updates : List OpenUpdate) (last : OpenUpdate) (final : List (Chunk MAX_READ_BUFFER)) :
    Call Client Unit := do
  inTurn (updates.map OpenUpdate.perform)
  update true (last.calls.map again ++ [⟨final, .endOfFile⟩]) last.react

theorem Listening.after_updates {updates : List OpenUpdate} (listening : Listening client arrived world)
    (opened : client.fd > 0) (selectable : Selectable client.fd)
    (stream : arrived ++ OpenUpdate.bytes updates ++ later = Packet.codec.encodeAll packets)
    (small : (Packet.codec.encodeAll packets).length < 2 ^ 63)
    (ran : (inTurn (updates.map OpenUpdate.perform)).run world = .ok () after) :
    Listening client (arrived ++ OpenUpdate.bytes updates) after := by
  induction updates generalizing world arrived with
  | nil =>
    cases ran
    simpa [OpenUpdate.bytes] using listening
  | cons first updates ih =>
    obtain ⟨middle, left, ran⟩ := inTurn_cons ran
    unfold OpenUpdate.bytes at stream ih ⊢
    rw [List.flatMap_cons, ← List.append_assoc] at stream ⊢
    have next := listening.after_update opened selectable (by rw [← stream, ← List.append_assoc]) small left
    exact ih next stream ran

/-- When the update that sees the end-of-file returns, every message the server
sent has gone to every action registered for its type, if and only if every
message that has such an action had arrived in full before the reception in
which the end-of-file came. -/
theorem closing_dispatches_all_iff (sent : Message.Frames messages frames)
    (small : frames.flatten.length < 2 ^ 63)
    (stream : OpenUpdate.bytes (updates ++ [last]) ++ final.flatMap Chunk.bytes = frames.flatten)
    (fresh : client.tmpMsg = .new) (empty : client.msgs = []) (opened : client.fd > 0)
    (selectable : Selectable client.fd)
    (ran : (session updates last final).run ⟨client, number, []⟩ = .ok () after) :
    AllHanded client (messages.map Message.packet) (ledger after.log) ↔
      ∀ index message, messages[index]? = some message → client.registered message.type ≠ [] →
        (frames.take (index + 1)).flatten.length ≤ (OpenUpdate.bytes (updates ++ [last])).length := by
  have encoded := Message.frames_eq sent
  rw [encoded] at small stream
  have split : OpenUpdate.bytes (updates ++ [last]) =
      OpenUpdate.bytes updates ++ last.calls.flatten.flatMap Chunk.bytes := by
    simp [OpenUpdate.bytes]
  rw [split] at stream ⊢
  obtain ⟨_, middle, early, ran⟩ := bind_returns.mp ran
  have start := listening_of_fresh number fresh empty
  have whole : [] ++ OpenUpdate.bytes updates ++ (last.calls.flatten.flatMap Chunk.bytes ++
      final.flatMap Chunk.bytes) = Packet.codec.encodeAll (messages.map Message.packet) := by
    rw [List.nil_append, ← List.append_assoc]
    exact stream
  have heard := start.after_updates opened selectable whole small early
  rw [List.nil_append] at heard
  obtain ⟨handed, known⟩ := heard.after_closing opened selectable stream small ran
  generalize OpenUpdate.bytes updates ++ last.calls.flatten.flatMap Chunk.bytes = arrived
    at stream handed known ⊢
  have taken : ∀ index, (frames.take (index + 1)).flatten =
      Packet.codec.encodeAll ((messages.map Message.packet).take (index + 1)) := by
    intro index
    rw [← List.map_take]
    exact Message.frames_eq (List.forall₂_take _ sent)
  constructor
  · intro all index message shape registers
    -- Some action is registered, so the message was passed, so it was decoded.
    obtain ⟨action, others, listed⟩ := List.exists_cons_of_ne_nil registers
    have said : (messages.map Message.packet)[index]? = some message.packet := by
      rw [List.getElem?_map, shape]
      rfl
    obtain ⟨pass, member, serial, _⟩ := all index message.packet said 0 action (by
      change (client.registered message.type)[0]? = some action
      rw [listed]
      rfl)
    have decoded := known pass member
    rw [serial] at decoded
    rw [taken]
    exact (Packet.codec.drain_length_iff arrived _ stream (List.getElem?_eq_some_iff.mp said).1).mp decoded
  · intro inTime index packet shape slot action registers
    obtain ⟨message, member, rfl⟩ := Option.map_eq_some_iff.mp (List.getElem?_map ▸ shape)
    have some : client.registered message.type ≠ [] := by
      intro none
      change (client.registered message.type)[slot]? = _ at registers
      rw [none] at registers
      cases registers
    have arrivedInFull := inTime index message member some
    rw [taken] at arrivedInFull
    have decoded := (Packet.codec.drain_length_iff arrived _ stream
      (List.getElem?_eq_some_iff.mp shape).1).mpr arrivedInFull
    obtain ⟨missing, parts, _⟩ := Packet.codec.drain_arrived _ _ _ stream
    apply handed index message.packet _ slot action registers
    rwa [parts, List.getElem?_append_left decoded] at shape

end Closing

section Witnesses

attribute [local instance] Platform.littleEndian

/-- A client connected on descriptor 5, with action 1 for messages of type 7. -/
def listener : Client := { Client.new with triggers := AList.insert 7 [1] ∅, fd := 5 }

/-- A frame of type 7 without payload, received before the end-of-file. -/
theorem closing_after_frame :
    ∃ after, (session [] ⟨[[⟨[7, 0, 0, 0, 0, 0, 0, 0, 0, 0, 0, 0], by decide, by decide⟩]], fun _ _ => .idle⟩
        []).run ⟨listener, 0, []⟩ = .ok () after ∧
      (AllHanded listener ([(⟨none, 7, .empty⟩ : Message)].map Message.packet) (ledger after.log) ↔
        ∀ index message, [(⟨none, 7, .empty⟩ : Message)][index]? = some message →
          listener.registered message.type ≠ [] →
            (([[7, 0, 0, 0, 0, 0, 0, 0, 0, 0, 0, 0]] : List (List UInt8)).take (index + 1)).flatten.length ≤
              (OpenUpdate.bytes ([] ++ [⟨[[⟨[7, 0, 0, 0, 0, 0, 0, 0, 0, 0, 0, 0], by decide, by decide⟩]],
                fun _ _ => .idle⟩])).length) := by
  refine ⟨_, run_exitState (by decide +kernel), ?_⟩
  exact (@closing_dispatches_all_iff _ _ _ _ _ []) (.cons rfl .nil) (by decide) rfl rfl rfl (by decide) (by decide)
    (run_exitState (by decide +kernel))

/-- The same frame in the reception that sees the end-of-file: it is not handed
to the action registered for it. -/
theorem closing_loses_last_frame :
    ∃ after, (session [] ⟨[], fun _ _ => .idle⟩
        [⟨[7, 0, 0, 0, 0, 0, 0, 0, 0, 0, 0, 0], by decide, by decide⟩]).run ⟨listener, 0, []⟩ = .ok () after ∧
      ¬ AllHanded listener ([(⟨none, 7, .empty⟩ : Message)].map Message.packet) (ledger after.log) := by
  refine ⟨_, run_exitState (by decide +kernel), ?_⟩
  generalize exit : (exitState _ _).get _ = after
  intro all
  obtain ⟨pass, member, _⟩ := all 0 _ rfl 0 1 rfl
  have nothing : (ledger after.log).passes.length = 0 := by
    rw [← exit]
    decide +kernel
  rw [List.length_eq_zero_iff.mp nothing] at member
  cases member

end Witnesses

end Client
end Libftpp
