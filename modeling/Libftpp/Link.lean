import Libftpp.ClientDelivery
import Libftpp.ServerBroadcast

/-! A server and a client at the two ends of one connection. The server may do
anything at any time, to this client or to others; the client updates, in
between, with whatever pieces the network has brought so far of what the server
has put on the connection. In every such run the client is given what was sent,
in order, and no action misses a message or sees one twice unless an action
threw. -/
namespace Libftpp
open Program World StreamDecoding

/-! ### What a log puts on one connection -/

/-- The byte strings handed over to a connection, after an event. A descriptor
that is accepted anew belongs to another connection. -/
def Event.noteSent (fd : Int) (sends : List (List UInt8)) : Event → List (List UInt8)
  | .accepted other => if other = fd then [] else sends
  | .sent other bytes => if other = fd then sends ++ [bytes] else sends
  | _ => sends

/-- What each `::send` has put on the connection that this descriptor has now. -/
def sentOn (fd : Int) (log : List Event) : List (List UInt8) := log.foldl (Event.noteSent fd) []

/-- The sends of a connection only become more, as long as it is the same one. -/
theorem sentOn_prefix (log : List Event) (same : .accepted fd ∉ events) : sentOn fd log <+: sentOn fd (log ++ events) := by
  induction events generalizing log with
  | nil => rw [List.append_nil]
  | cons event events ih =>
    have first : sentOn fd log <+: sentOn fd (log ++ [event]) := by
      rw [sentOn, sentOn, List.foldl_append]
      cases event with
      | accepted other =>
        have different : other ≠ fd := by
          rintro rfl
          exact same (List.mem_cons_self ..)
        simp [Event.noteSent, different]
      | sent other bytes =>
        by_cases here : other = fd
        · simp [Event.noteSent, here]
        · simp [Event.noteSent, here]
      | _ => exact List.prefix_rfl
    rw [List.append_cons]
    exact first.trans (ih _ fun member => same (List.mem_cons_of_mem _ member))

/-! ### The client's end -/

namespace Client

theorem due_of_triggers {first second : Client} (same : first.triggers = second.triggers)
    (packets : List Packet) (number : Nat) : first.due packets number = second.due packets number := by
  have each : ∀ serial packet, first.dueOf serial packet = second.dueOf serial packet := by
    intro serial packet
    rw [dueOf, dueOf, registered_of_triggers same]
  rw [due, due]
  exact congrArg (List.flatMap · _) (funext fun numbered => each numbered.2 numbered.1)

/-- Every pass is a delivery that was due; while no action has thrown, the
passes are exactly the deliveries due for all that was decoded. -/
structure Exact (client : Client) (decoded : List Packet) (world : World Client) : Prop where
  genuine : ∀ pass ∈ (ledger world.log).passes, ∃ delivery ∈ client.due decoded 0, Fulfils False delivery pass
  settled : .threw ∉ world.log → world.object.msgs = [] ∧
    List.Forall₂ (Fulfils True) (client.due decoded 0) (ledger world.log).passes

section Relays
variable [Platform]

/-- A client that listens, and has passed on what it was given. -/
structure Relays (client : Client) (heard : List UInt8) (world : World Client) : Prop
    extends Listening client heard world where
  exact : Exact client (Packet.codec.drain heard).1 world

theorem relays_of_fresh (number : Int) (fresh : client.tmpMsg = .new) (empty : client.msgs = []) :
    Relays client [] ⟨client, number, []⟩ := by
  have nothing : (Packet.codec.drain []).1 = [] := by
    rw [Packet.codec.drain_stuck Packet.codec.next_nil]
  refine ⟨listening_of_fresh number fresh empty, ?_, fun _ => ⟨empty, ?_⟩⟩
  · intro pass member
    cases member
  · rw [nothing]
    exact .nil

/-- What concerns no message. -/
theorem Relays.hushed (relays : Relays client heard world)
    (steps : Relation.ReflTransGen (Hushed id) world after) : Relays client heard after := by
  obtain ⟨same, logged, owner, books⟩ := Hushed.books steps
  have object : after.object = world.object := same
  obtain ⟨done, queued, account, split⟩ := relays.account
  refine ⟨⟨?_, ?_, ?_, ?_, done, queued, ⟨?_, ?_, ?_, ?_, ?_, ?_⟩, split⟩, ⟨?_, ?_⟩⟩
  · rw [object]
    exact relays.fd
  · rw [object]
    exact relays.inside
  · rw [object]
    exact relays.whole
  · rw [object]
    exact relays.unread
  · rw [object]
    exact account.triggers
  · rw [object]
    exact account.queue
  · rw [books, object]
    exact account.counted
  · rw [books]
    exact account.dropped
  · rw [books]
    exact account.known
  · rw [books]
    exact account.handed
  · rw [books]
    exact relays.exact.genuine
  · rw [books, object]
    exact fun calm => relays.exact.settled fun member => calm (logged.subset member)

/-- The `select` loop of an update hears these bytes, and the dispatch loop
finds the new messages behind those still queued. -/
theorem Listening.polls {calls : List (List (Chunk MAX_READ_BUFFER))} (listening : Listening client heard world)
    (opened : client.fd > 0) (selectable : Selectable client.fd)
    (stream : heard ++ calls.flatten.flatMap Chunk.bytes ++ later = Packet.codec.encodeAll packets)
    (small : (Packet.codec.encodeAll packets).length < 2 ^ 63) :
    ∃ polled fresh, (∀ react, (update true (calls.map again) react).run world = (dispatch react).run polled) ∧
      Listening client (heard ++ calls.flatten.flatMap Chunk.bytes) polled ∧ Received world polled ∧
      polled.object.msgs = world.object.msgs ++ fresh ∧
      (Packet.codec.drain (heard ++ calls.flatten.flatMap Chunk.bytes)).1 =
        (Packet.codec.drain heard).1 ++ fresh.map Message.packet := by
  obtain ⟨shape, stuck⟩ := Packet.codec.drain_spec heard
  have fits : world.object.tmpMsg.buffer.buffer.bytes.length + (calls.flatten.flatMap Chunk.bytes).length ≤ maxSize := by
    have size := congrArg List.length stream
    rw [List.length_append, List.length_append] at size
    rw [listening.whole]
    unfold maxSize
    omega
  have orderly : Inbox.Orderly (world.object.tmpMsg.unread ++ calls.flatten.flatMap Chunk.bytes) := by
    have all := Inbox.orderly_of_stream stream small
    rw [shape, List.append_assoc] at all
    rw [listening.unread]
    exact all.behindAll
  obtain ⟨polled, pending, fresh, ran, object, _, _, drained, _⟩ :=
    receiveCalls_drains listening.inside (listening.unread ▸ stuck) fits orderly
  rw [listening.unread] at drained
  obtain ⟨polled', again', heardNow⟩ := listening.receive stream small
  cases ran.symm.trans again'
  have connected : world.object.fd > 0 := by rw [listening.fd]; exact opened
  have watched : Selectable world.object.fd := by rw [listening.fd]; exact selectable
  have polls : (poll (calls.map again)).run world = .ok () polled := by
    have goes := (@poll_again _ _ _ _ [] connected watched ran).1
    rw [List.append_nil] at goes
    rw [goes, poll, EStateM.run_bind, EStateM.run_get]
    simp only [heardNow.fd, opened, selectable, not_true_eq_false, ↓reduceIte]
    rfl
  refine ⟨polled, fresh, ?_, heardNow, ?_, by rw [object], ?_⟩
  · intro react
    rw [update_connected connected, EStateM.run_bind, polls]
  · exact received_of_steps listening.inside (receiveCalls_steps calls _ _ (.of_returns ran))
  · rw [Packet.codec.drain_append, ← drained]

omit [Platform] in
/-- What is due of the queue is due of all that was decoded. -/
theorem Account.due_queued (account : Account client done queued world) :
    client.due (done ++ queued) 0 = client.due done 0 ++ world.object.due queued (ledger world.log).dropped := by
  rw [due_append, Nat.zero_add, account.dropped, due_of_triggers account.triggers]

omit [Platform] in
/-- Deliveries made out of the queue are due ones. -/
theorem Exact.made (exact : Exact client packets before) (part : client.due packets 0 <+: client.due more 0)
    (made : Made fresh before deliveries after) (due : ∀ delivery ∈ deliveries, delivery ∈ client.due more 0) :
    ∀ pass ∈ (ledger after.log).passes, ∃ delivery ∈ client.due more 0, Fulfils False delivery pass := by
  obtain ⟨new, passes, all⟩ := made
  intro pass member
  rw [passes] at member
  rcases List.mem_append.mp member with old | late
  · obtain ⟨delivery, was, fulfils⟩ := exact.genuine pass old
    exact ⟨delivery, part.subset was, fulfils⟩
  · obtain ⟨place, inside, rfl⟩ := List.mem_iff_getElem.mp late
    have bound : place < deliveries.length := all.length_eq ▸ inside
    exact ⟨deliveries[place], due _ (List.getElem_mem _), (all.get bound inside).mono False.elim⟩

/-- One update, whatever its actions do. -/
theorem Relays.update {calls : List (List (Chunk MAX_READ_BUFFER))} (relays : Relays client heard world)
    (opened : client.fd > 0) (selectable : Selectable client.fd)
    (stream : heard ++ calls.flatten.flatMap Chunk.bytes ++ later = Packet.codec.encodeAll packets)
    (small : (Packet.codec.encodeAll packets).length < 2 ^ 63)
    (left : Leaves (update true (calls.map again) react) world after) :
    Relays client (heard ++ calls.flatten.flatMap Chunk.bytes) after := by
  have listens := relays.toListening.after_update opened selectable stream small left
  refine ⟨listens, ?_⟩
  obtain ⟨polled, fresh, dispatches, listening, received, queue, decoded⟩ :=
    relays.toListening.polls opened selectable stream small
  obtain ⟨done, queued, account, split⟩ := listening.account
  replace left : Leaves (dispatch react) polled after := by
    unfold Leaves at left ⊢
    rwa [dispatches] at left
  have before : Exact client (Packet.codec.drain heard).1 { polled with object := world.object } :=
    ⟨by rw [received.passes]; exact relays.exact.genuine, fun calm => by
      rw [received.passes]
      exact relays.exact.settled fun member => calm (received.logged.subset member)⟩
  have part : client.due (Packet.codec.drain heard).1 0 <+:
      client.due (Packet.codec.drain (heard ++ calls.flatten.flatMap Chunk.bytes)).1 0 := by
    rw [decoded, due_append]
    exact List.prefix_append _ _
  have dues := account.due_queued
  rw [split] at dues
  have genuine : ∀ {deliveries}, deliveries <+: polled.object.due queued (ledger polled.log).dropped →
      ∀ delivery ∈ deliveries,
        delivery ∈ client.due (Packet.codec.drain (heard ++ calls.flatten.flatMap Chunk.bytes)).1 0 := by
    intro deliveries prefixed delivery member
    rw [dues]
    exact List.mem_append_right _ (prefixed.subset member)
  rcases left with ⟨_, ran⟩ | ⟨error, ran⟩
  · obtain ⟨new, passes, all⟩ := (dispatch_hands react account.queue).1 _ _ ran
    have dispatched := (dispatch_meets react polled).1 _ _ ran
    refine ⟨before.made part ⟨new, passes, all⟩ (genuine List.prefix_rfl), fun calm => ⟨by rw [dispatched.kept], ?_⟩⟩
    obtain ⟨empty, all'⟩ := before.settled fun member =>
      calm (dispatched.logged.subset (List.mem_append_left _ member))
    -- The queue held nothing but the new messages, so their packets are the queued ones.
    rw [show world.object.msgs = [] from empty, List.nil_append] at queue
    have same : done = (Packet.codec.drain heard).1 ∧ queued = fresh.map Message.packet := by
      apply List.append_inj' (split.trans decoded)
      rw [List.length_map, ← queue]
      exact account.queue.length_eq
    rw [passes, dues, same.1]
    apply List.rel_append all'
    exact all.imp fun _ _ fulfils => fulfils.mono fun _ => by rw [queue, same.2]
  · obtain ⟨threw, deliveries, prefixed, made⟩ := (dispatch_hands react account.queue).2 _ _ ran
    exact ⟨before.made part made (genuine prefixed), fun calm => absurd threw calm⟩

end Relays

end Client

/-! ### Both ends -/

/-- Both ends of a connection, and what the client has been given of the bytes on it. -/
structure Link where
  server : World Server
  client : World Client
  heard : List UInt8

section Link
variable [Platform]

/-- One call at either end. The network hands over what was sent, in order, cut
as it likes; until the descriptor is accepted anew it is the same connection. -/
inductive Link.Step (fd : Int) : Link → Link → Prop where
  | serves (operation : Server.Operation) (left : Leaves (Server.perform operation) link.server after)
      (same : .accepted fd ∉ after.log.drop link.server.log.length) :
      Step fd link { link with server := after }
  | broadcasts (message : Message) (visits : List Server.Visit)
      (left : Leaves (Server.sendToAll message visits) link.server after)
      (same : .accepted fd ∉ after.log.drop link.server.log.length) :
      Step fd link { link with server := after }
  | hears (updates : Client.OpenUpdate) (left : Leaves updates.perform link.client after)
      (brought : link.heard ++ updates.calls.flatten.flatMap Chunk.bytes <+: (sentOn fd link.server.log).flatten) :
      Step fd link
        { link with client := after, heard := link.heard ++ updates.calls.flatten.flatMap Chunk.bytes }
  | answers (message : Message) (result : SendResult) (left : Leaves (Client.send message result) link.client after) :
      Step fd link { link with client := after }

/-- What holds of both ends at any moment, if the bytes on the connection are a
beginning of a stream of frames. -/
structure Link.Sound (fd : Int) (client : Client) (link : Link) : Prop where
  drained : link.server.object.Drained
  brought : link.heard <+: (sentOn fd link.server.log).flatten
  relays : ∀ packets later, (sentOn fd link.server.log).flatten ++ later = Packet.codec.encodeAll packets →
    (Packet.codec.encodeAll packets).length < 2 ^ 63 → Client.Relays client link.heard link.client

variable {client : Client} {server : World Server}

theorem Server.sendToAll_steps (message : Message) (visits : List Visit) :
    StepsThrough Step (sendToAll message visits) := by
  induction visits with
  | nil => exact .pure ()
  | cons visit visits ih =>
    apply StepsThrough.bind (sendTo_steps message visit.clientId visit.result)
    intro _
    apply StepsThrough.bind .get
    intro world
    exact .ite (fun _ => ih) fun _ => .undefinedBehaviour

/-- The server's end only adds to the connection. -/
theorem Link.Sound.served (sound : Sound fd client link) (drained : after.object.Drained)
    (logged : link.server.log <+: after.log)
    (same : .accepted fd ∉ after.log.drop link.server.log.length) :
    Sound fd client { link with server := after } := by
  obtain ⟨events, shape⟩ := logged
  rw [← shape, List.drop_left] at same
  obtain ⟨more, grown⟩ := shape ▸ sentOn_prefix link.server.log same
  have carries : (sentOn fd after.log).flatten = (sentOn fd link.server.log).flatten ++ more.flatten := by
    rw [← grown, List.flatten_append]
  refine ⟨drained, ?_, ?_⟩
  · rw [carries]
    exact sound.brought.trans (List.prefix_append _ _)
  · intro packets later stream small
    rw [carries, List.append_assoc] at stream
    exact sound.relays packets _ stream small

theorem turns_logged (turns : Relation.ReflTransGen Server.Turn before after) (drained : before.object.Drained) :
    before.log <+: after.log := by
  induction turns with
  | refl => exact List.prefix_rfl
  | tail turns turn ih => exact ih.trans (turn.logged (Server.turns_drained turns drained))

theorem Link.Sound.step (sound : Sound fd client link) (opened : client.fd > 0) (selectable : Selectable client.fd)
    (step : Step fd link next) : Sound fd client next := by
  cases step with
  | serves operation left same =>
    rcases Server.perform_turns operation left with ⟨_, exit⟩ | turns
    · exact sound.served (exit.drained sound.drained) exit.logged same
    · exact sound.served (Server.turns_drained turns sound.drained) (turns_logged turns sound.drained) same
  | broadcasts message visits left same =>
    have turns := Server.Step.turns (Server.sendToAll_steps message visits) _ _ left
    exact sound.served (Server.turns_drained turns sound.drained) (turns_logged turns sound.drained) same
  | hears updates left brought =>
    refine ⟨sound.drained, brought, fun packets later stream small => ?_⟩
    obtain ⟨rest, split⟩ := brought
    have whole := stream
    rw [← split, List.append_assoc] at whole
    exact (sound.relays packets later stream small).update opened selectable whole small left
  | answers message result left =>
    refine ⟨sound.drained, sound.brought, fun packets later stream small => ?_⟩
    exact (sound.relays packets later stream small).hushed (Client.send_hushed message result _ _ left)

/-- The two ends as they are when the connection has just been made. -/
def Link.made (server : World Server) (client : Client) (number : Int) : Link :=
  ⟨server, ⟨client, number, []⟩, []⟩

theorem Link.sound_of_run {address : String} {port : UInt64} {active readyRead : FdSet} {errno : Int}
    (reached : Server.Run allowed ⟨.new address port active readyRead, errno, []⟩ server)
    (fresh : client.tmpMsg = .new) (empty : client.msgs = []) (opened : client.fd > 0)
    (selectable : Selectable client.fd)
    (run : Relation.ReflTransGen (Step fd) (made server client number) link) : Sound fd client link := by
  induction run with
  | refl =>
    have kept := reached.keeps (fun _ _ => True) (fun _ => True) (fun _ _ _ _ _ _ => trivial)
      (fun _ _ _ _ _ _ _ _ => trivial) (Server.drained_of_none rfl) trivial
    exact ⟨kept.1, List.nil_prefix, fun _ _ _ _ => Client.relays_of_fresh number fresh empty⟩
  | tail _ step ih => exact ih.step opened selectable step

end Link

section Witnesses

attribute [local instance] Platform.littleEndian

end Witnesses

end Libftpp
