import Libftpp.ClientRuns

/-! What the actions registered for a message get to see of it. They are all
given the same message by const reference, and its read cursor is `mutable`: an
action finds unread what has been left by the actions before it, those of an
earlier loop that an exception cut short included. So an action sees the whole
payload exactly when nothing of it has been read before. -/
namespace Libftpp
open Program World

/-- Reading moves the cursor over so many bytes, or to the end. -/
theorem Message.readBy_unread (message : Message) (reads : Nat) :
    (message.readBy reads).unread = message.unread.drop reads := by
  have inside : min reads message.unread.length ≤ message.unread.length := Nat.min_le_right ..
  have dropped : message.unread.drop (min reads message.unread.length) = message.unread.drop reads := by
    rcases Nat.le_total reads message.unread.length with few | many
    · rw [Nat.min_eq_left few]
    · rw [Nat.min_eq_right many, List.drop_length, List.drop_of_length_le many]
  rw [← dropped]
  by_cases valid : message.buffer.Valid
  · exact DataBuffer.advance_unread valid inside
  · -- behind the end there is nothing to read
    have none : message.unread = [] := List.drop_eq_nil_of_le (Nat.le_of_lt (Nat.lt_of_not_le valid))
    rw [readBy, none, List.length_nil, Nat.min_zero, advance, DataBuffer.advance_zero, none, List.drop_nil]

/-- A part read off leaves the whole only if nothing is read, or there is nothing. -/
theorem drop_eq_self_iff {whole : List α} {count : Nat} : whole.drop count = whole ↔ count = 0 ∨ whole = [] := by
  constructor
  · intro same
    have length := congrArg List.length same
    rw [List.length_drop] at length
    rcases whole with _ | ⟨first, rest⟩
    · exact Or.inr rfl
    · rw [List.length_cons] at length
      exact Or.inl (by omega)
  · rintro (rfl | rfl)
    · exact List.drop_zero
    · exact List.drop_nil

/-- The event hands no message to an action. -/
def Event.Silent (event : Event) : Prop :=
  ∀ index slot action clientId message, event ≠ .invoked index slot action clientId message

theorem Event.Aside.silent {event : Event} (aside : event.Aside) : event.Silent := by
  rintro index slot action clientId message rfl
  obtain ⟨owner, noted⟩ := aside .start
  exact absurd (congrArg Ledger.passes noted) (List.cons_ne_nil _ _)

/-- What happens beside a dispatch loop hands nothing to an action. -/
theorem Hushed.silent {before after : World σ} (steps : Relation.ReflTransGen (Hushed id) before after) :
    after.object = before.object ∧ ∃ events, after.log = before.log ++ events ∧ ∀ event ∈ events, event.Silent := by
  induction steps with
  | refl => exact ⟨rfl, [], (List.append_nil _).symm, nofun⟩
  | tail _ hushed ih =>
    obtain ⟨same, events, logged, silent⟩ := ih
    refine ⟨Eq.trans hushed.1 same, ?_⟩
    rcases hushed.2 with still | ⟨event, aside, noted⟩
    · exact ⟨events, still.trans logged, silent⟩
    · refine ⟨events ++ [event], by rw [noted, logged, List.append_assoc], ?_⟩
      rw [List.forall_mem_append, List.forall_mem_singleton]
      exact ⟨silent, aside.silent⟩

/-- An action that comes back: what it sends can be serialized, and it throws
nothing. -/
def Reaction.Returns [Platform] (reaction : Reaction (Message × SendResult)) : Prop :=
  reaction.throws = none ∧
    ∀ reply ∈ reaction.replies, ∃ frame after, Message.getSerializedData.run reply.1 = .ok frame after

namespace Client

/-- The message at this place of the queue has an action in this slot. -/
def Registers (client : Client) (index slot : Nat) : Prop :=
  ∃ message, client.msgs[index]? = some message ∧ slot < (client.registered message.type).length

/-- The loop comes to this action of this message: every action before it comes back. -/
def Reaches [Platform] (client : Client) (react : Nat → Nat → Reaction (Message × SendResult))
    (index slot : Nat) : Prop :=
  ∀ earlier place, client.Registers earlier place → earlier < index ∨ earlier = index ∧ place < slot →
    (react earlier place).Returns

/-- Nothing of the message has been read when the loop hands it to this action:
neither before the loop, nor by the actions before. -/
def Untouched (react : Nat → Nat → Reaction (Message × SendResult)) (index slot : Nat) (message : Message) : Prop :=
  message.buffer.cursor = 0 ∧ ∀ earlier < slot, (react index earlier).reads = 0

/-- Every action this message is handed to finds the payload unread. -/
def SeesWhole (events : List Event) (index : Nat) (payload : List UInt8) : Prop :=
  ∀ slot action seen, Event.invoked index slot action none seen ∈ events → seen.unread = payload

/-- How much the actions before this slot read of the message. -/
def readBefore (react : Nat → Nat → Reaction (Message × SendResult)) (index : Nat) : Nat → Nat
  | 0 => 0
  | slot + 1 => readBefore react index slot + (react index slot).reads

theorem readBefore_eq_zero_iff {react : Nat → Nat → Reaction (Message × SendResult)} :
    readBefore react index slot = 0 ↔ ∀ earlier < slot, (react index earlier).reads = 0 := by
  induction slot with
  | zero => simp [readBefore]
  | succ slot ih => rw [readBefore, Nat.add_eq_zero_iff, ih, Nat.forall_lt_succ_right]

/-- These events hand the messages of the queue to the actions in these places,
each as the actions before have left it. -/
structure Shows (react : Nat → Nat → Reaction (Message × SendResult)) (client : Client) (events : List Event)
    (upTo : Nat → Nat → Prop) : Prop where
  handed : ∀ index slot, (∃ action seen, Event.invoked index slot action none seen ∈ events) ↔
    client.Registers index slot ∧ upTo index slot
  unread : ∀ index slot action seen, Event.invoked index slot action none seen ∈ events →
    ∃ message, client.msgs[index]? = some message ∧
      seen.unread = message.unread.drop (readBefore react index slot)

theorem Shows.congr (shows : Shows react client events upTo)
    (same : ∀ index slot, client.Registers index slot → (upTo index slot ↔ upTo' index slot)) :
    Shows react client events upTo' where
  handed index slot := (shows.handed index slot).trans (and_congr_right (same index slot))
  unread := shows.unread

/-- One more invocation. -/
theorem Shows.invoked {now message : Message} {later : List Event} (shows : Shows react client events upTo)
    (shape : client.msgs[index]? = some message) (listed : slot < (client.registered message.type).length)
    (left : now.unread = message.unread.drop (readBefore react index slot))
    (silent : ∀ event ∈ later, event.Silent) :
    Shows react client (events ++ .invoked index slot action none now :: later)
      fun other place => upTo other place ∨ other = index ∧ place = slot := by
  have member : ∀ other place action' seen,
      Event.invoked other place action' none seen ∈ events ++ .invoked index slot action none now :: later ↔
        Event.invoked other place action' none seen ∈ events ∨
          other = index ∧ place = slot ∧ action' = action ∧ seen = now := by
    intro other place action' seen
    have beyond : Event.invoked other place action' none seen ∉ later :=
      fun inside => silent _ inside _ _ _ _ _ rfl
    simp [beyond]
  constructor
  · intro other place
    simp only [member, exists_or, shows.handed, and_or_left]
    apply or_congr_right
    constructor
    · rintro ⟨_, _, rfl, rfl, _⟩
      exact ⟨⟨message, shape, listed⟩, rfl, rfl⟩
    · rintro ⟨_, rfl, rfl⟩
      exact ⟨action, now, rfl, rfl, rfl, rfl⟩
  · intro other place action' seen handed
    rcases (member ..).mp handed with before | ⟨rfl, rfl, _, rfl⟩
    · exact shows.unread _ _ _ _ before
    · exact ⟨message, shape, left⟩

/-- Whether the payload is seen whole depends on what has been read before. -/
theorem Shows.seesWhole_iff {message : Message} (shows : Shows react client events upTo)
    (shape : client.msgs[index]? = some message) :
    SeesWhole events index message.buffer.buffer.bytes ↔
      ∀ slot < (client.registered message.type).length, upTo index slot →
        message.buffer.buffer.bytes = [] ∨ Untouched react index slot message := by
  have whole (slot : Nat) : message.unread.drop (readBefore react index slot) = message.buffer.buffer.bytes ↔
      message.buffer.buffer.bytes = [] ∨ Untouched react index slot message := by
    rw [Message.unread, DataBuffer.unread, List.drop_drop, drop_eq_self_iff, Nat.add_eq_zero_iff, or_comm,
      Untouched, readBefore_eq_zero_iff, ← UInt64.toNat_inj]
    rfl
  constructor
  · intro sees slot listed comes
    obtain ⟨action, seen, handed⟩ := (shows.handed index slot).mpr ⟨⟨message, shape, listed⟩, comes⟩
    obtain ⟨_, same, left⟩ := shows.unread index slot action seen handed
    rw [shape] at same
    cases same
    exact (whole slot).mp (left.symm.trans (sees slot action seen handed))
  · intro untouched slot action seen handed
    obtain ⟨_, same, left⟩ := shows.unread index slot action seen handed
    obtain ⟨⟨_, same', listed⟩, comes⟩ := (shows.handed index slot).mp ⟨action, seen, handed⟩
    rw [shape] at same same'
    cases same
    cases same'
    exact left.trans ((whole slot).mpr (untouched slot listed comes))

section Loop
variable [Platform]

/-- What an action sends is sent exactly when it can be serialized. -/
theorem send_returns_iff {message : Message} {world : World Client} :
    (∃ after, (send message result).run world = .ok () after) ↔
      ∃ frame after, Message.getSerializedData.run message = .ok frame after := by
  rw [send, EStateM.run_bind, run_observe]
  cases ran : Message.getSerializedData.run message with
  | error halt after => simp
  | ok frame after =>
    simp only [EStateM.run_bind, EStateM.run_get, run_ite, run_setErrno]
    split
    · simp
    · cases result <;> simp

theorem replies_return_iff {replies : List (Message × SendResult)} {world : World Client} :
    (∃ after, (replies.forM fun reply => send reply.1 reply.2).run world = .ok () after) ↔
      ∀ reply ∈ replies, ∃ frame after, Message.getSerializedData.run reply.1 = .ok frame after := by
  induction replies generalizing world with
  | nil => exact ⟨fun _ => nofun, fun _ => ⟨world, rfl⟩⟩
  | cons reply replies ih =>
    rw [List.forall_mem_cons]
    constructor
    · rintro ⟨after, ran⟩
      obtain ⟨_, middle, sent, rest⟩ := bind_returns.mp ran
      exact ⟨send_returns_iff.mp ⟨middle, sent⟩, ih.mp ⟨after, rest⟩⟩
    · rintro ⟨first, others⟩
      obtain ⟨middle, sent⟩ := send_returns_iff.mpr first
      obtain ⟨after, rest⟩ := (@ih middle).mpr others
      exact ⟨after, bind_returns.mpr ⟨(), middle, sent, rest⟩⟩

theorem act_returns_iff {reaction : Reaction (Message × SendResult)} {world : World Client} :
    (∃ after, (act reaction).run world = .ok () after) ↔ reaction.Returns := by
  rw [Reaction.Returns, ← @replies_return_iff _ _ world, act]
  constructor
  · rintro ⟨after, ran⟩
    obtain ⟨_, middle, sent, rest⟩ := bind_returns.mp ran
    cases calm : reaction.throws with
    | none => exact ⟨rfl, middle, sent⟩
    | some what =>
      simp only [calm] at rest
      cases rest
  · rintro ⟨calm, middle, sent⟩
    refine ⟨middle, bind_returns.mpr ⟨(), middle, sent, ?_⟩⟩
    simp only [calm]
    rfl

/-- One invocation: the message is handed over as it stands, and stands as the
action has read it. -/
theorem invoke_hands {world after : World Client} {reaction : Reaction (Message × SendResult)}
    (left : Leaves (invoke reaction index slot action now) world after) :
    ∃ events, after.log = world.log ++ .invoked index slot action none now :: events ∧
      (∀ event ∈ events, event.Silent) ∧
      after.object = { world.object with msgs := world.object.msgs.set index (now.readBy reaction.reads) } := by
  replace left := (left.past (run_emit ..)).past (run_alter ..)
  rcases left with ⟨_, ran⟩ | ⟨error, ran⟩
  · obtain ⟨same, events, logged, silent⟩ :=
      Hushed.silent (act_hushed reaction _ _ (.of_returns (noting_returns.mp ran)))
    exact ⟨events, by rw [logged, List.append_assoc]; rfl, silent, same⟩
  · obtain ⟨middle, threw, rfl⟩ := noting_throws.mp ran
    obtain ⟨same, events, logged, silent⟩ := Hushed.silent (act_hushed reaction _ _ (Or.inr ⟨error, threw⟩))
    refine ⟨events ++ [.threw], by rw [logged]; simp, ?_, same⟩
    rw [List.forall_mem_append, List.forall_mem_singleton]
    exact ⟨silent, nofun⟩

/-- The loop goes on behind an invocation exactly if the action comes back. -/
theorem invoke_returns_iff {world : World Client} {reaction : Reaction (Message × SendResult)} :
    (∃ after, (invoke reaction index slot action now).run world = .ok () after) ↔ reaction.Returns := by
  rw [invoke, EStateM.run_bind, run_emit]
  simp only [EStateM.run_bind, run_alter, noting_returns, act_returns_iff]

/-- The loop has come to this message and this action. -/
structure AtWork (react : Nat → Nat → Reaction (Message × SendResult)) (start : World Client)
    (index slot : Nat) (world : World Client) : Prop where
  shown : ∃ events, world.log = start.log ++ events ∧
    Shows react start.object events fun other place => other < index ∨ other = index ∧ place < slot
  reaches : start.object.Reaches react index slot
  triggers : world.object.triggers = start.object.triggers
  current : ∀ message, start.object.msgs[index]? = some message →
    ∃ now, world.object.msgs[index]? = some now ∧ now.type = message.type ∧
      now.unread = message.unread.drop (readBefore react index slot)
  ahead : ∀ later, index < later → world.object.msgs[later]? = start.object.msgs[later]?

/-- The loop is over, at its end or by an exception, and has handed over what it
could come to. -/
def Through (react : Nat → Nat → Reaction (Message × SendResult)) (start world : World Client) : Prop :=
  ∃ events, world.log = start.log ++ events ∧ Shows react start.object events (start.object.Reaches react)

theorem AtWork.refl (react : Nat → Nat → Reaction (Message × SendResult)) (start : World Client) :
    AtWork react start 0 0 { start with log := start.log ++ [.dispatching] } where
  shown := by
    refine ⟨[.dispatching], rfl, ?_, ?_⟩
    · intro index slot
      simp
    · intro index slot action seen handed
      simp at handed
  reaches earlier place _ position := by omega
  triggers := rfl
  current message shape := ⟨message, shape, rfl, List.drop_zero.symm⟩
  ahead _ _ := rfl

/-- The message goes to the next of its actions. -/
theorem AtWork.invoked {message now : Message} (work : AtWork react start index slot world)
    (shape : start.object.msgs[index]? = some message) (found : world.object.msgs[index]? = some now)
    (listed : slot < (start.object.registered message.type).length)
    (left : Leaves (invoke (react index slot) index slot action now) world after) :
    ∃ events, after.log = start.log ++ events ∧
      Shows react start.object events fun other place => other < index ∨ other = index ∧ place < slot + 1 := by
  obtain ⟨events, logged, shows⟩ := work.shown
  obtain ⟨later, more, silent, _⟩ := invoke_hands left
  obtain ⟨_, found', _, unread⟩ := work.current message shape
  rw [found] at found'
  cases found'
  refine ⟨events ++ .invoked index slot action none now :: later, by rw [more, logged, List.append_assoc], ?_⟩
  apply (shows.invoked shape listed unread silent).congr
  intro other place _
  omega

/-- It moves on if the action comes back. -/
theorem AtWork.next_slot {message now : Message} (work : AtWork react start index slot world)
    (shape : start.object.msgs[index]? = some message) (found : world.object.msgs[index]? = some now)
    (listed : slot < (start.object.registered message.type).length)
    (ran : (invoke (react index slot) index slot action now).run world = .ok () after) :
    AtWork react start index (slot + 1) after := by
  obtain ⟨_, found', type, unread⟩ := work.current message shape
  rw [found] at found'
  cases found'
  obtain ⟨_, _, _, object⟩ := invoke_hands (.of_returns ran)
  constructor
  · exact work.invoked shape found listed (.of_returns ran)
  · intro earlier place registers position
    by_cases here : earlier = index ∧ place = slot
    · obtain ⟨rfl, rfl⟩ := here
      exact invoke_returns_iff.mp ⟨after, ran⟩
    · exact work.reaches earlier place registers (by omega)
  · rw [object]
    exact work.triggers
  · intro other same
    rw [shape] at same
    cases same
    rw [object]
    refine ⟨now.readBy (react index slot).reads, ?_, type, ?_⟩
    · exact List.getElem?_set_self (List.getElem?_eq_some_iff.mp found).1
    · rw [Message.readBy_unread, unread, List.drop_drop, readBefore]
  · intro later beyond
    rw [object, List.getElem?_set_ne (by omega)]
    exact work.ahead later beyond

/-- An action that does not come back is the last one. -/
theorem AtWork.through_of_throw {message now : Message} (work : AtWork react start index slot world)
    (shape : start.object.msgs[index]? = some message) (found : world.object.msgs[index]? = some now)
    (listed : slot < (start.object.registered message.type).length)
    (threw : (invoke (react index slot) index slot action now).run world = .error (.thrown error) after) :
    Through react start after := by
  have stuck : ¬ (react index slot).Returns := by
    intro returns
    obtain ⟨_, ran⟩ := invoke_returns_iff.mpr returns
    rw [threw] at ran
    cases ran
  obtain ⟨events, logged, shows⟩ := work.invoked shape found listed (Or.inr ⟨error, threw⟩)
  refine ⟨events, logged, shows.congr ?_⟩
  intro other place _
  constructor
  · intro position earlier before registers comes
    exact work.reaches earlier before registers (by omega)
  · intro reaches
    by_contra beyond
    exact stuck (reaches index slot ⟨message, shape, listed⟩ (by omega))

/-- The actions of a message are done. -/
theorem AtWork.next_message (work : AtWork react start index slot world)
    (done : ∀ place, start.object.Registers index place → place < slot) :
    AtWork react start (index + 1) 0 world := by
  have position : ∀ other place, start.object.Registers other place →
      ((other < index ∨ other = index ∧ place < slot) ↔ other < index + 1 ∨ other = index + 1 ∧ place < 0) := by
    intro other place registers
    by_cases here : other = index
    · subst here
      have before := done place registers
      omega
    · omega
  constructor
  · obtain ⟨events, logged, shows⟩ := work.shown
    exact ⟨events, logged, shows.congr position⟩
  · intro earlier place registers comes
    exact work.reaches earlier place registers ((position earlier place registers).mpr comes)
  · exact work.triggers
  · intro message shape
    exact ⟨message, (work.ahead (index + 1) (Nat.lt_succ_self _)).trans shape, rfl, List.drop_zero.symm⟩
  · intro later beyond
    exact work.ahead later (by omega)

theorem atWork_rule (react : Nat → Nat → Reaction (Message × SendResult)) (start : World Client) :
    LoopRule react start (AtWork react start) (Through react start) where
  current index slot world message work shape := by
    obtain ⟨now, found, type, _⟩ := work.current message shape
    refine ⟨now, found, ?_⟩
    rw [triggersOf, triggersOf, work.triggers, type]
  invoked index slot world message now action work shape found next := by
    have listed := (List.getElem?_eq_some_iff.mp next).1
    constructor
    · intro _ after ran
      exact work.next_slot shape found listed ran
    · intro error after threw
      exact work.through_of_throw shape found listed threw
  passed index slot world message work shape through := by
    apply work.next_message
    rintro place ⟨_, same, listed⟩
    cases shape.symm.trans same
    exact Nat.lt_of_lt_of_le listed through

/-- At its end the loop has come to every message. -/
theorem AtWork.through (work : AtWork react start start.object.msgs.length 0 world) : Through react start world := by
  obtain ⟨events, logged, shows⟩ := work.shown
  refine ⟨events, logged, shows.congr ?_⟩
  have inside {other place : Nat} (registers : start.object.Registers other place) :
      other < start.object.msgs.length := by
    obtain ⟨_, shape, _⟩ := registers
    exact (List.getElem?_eq_some_iff.mp shape).1
  intro other place registers
  constructor
  · intro _ earlier before registers' _
    exact work.reaches earlier before registers' (Or.inl (inside registers'))
  · exact fun _ => Or.inl (inside registers)

/-- A dispatch loop hands over what it comes to, each message as it has been read so far. -/
theorem dispatch_shows {before after : World Client} (left : Leaves (dispatch react) before after) :
    Through react before after := by
  have loops : Meets (dispatchFrom react 0 before.object.msgs.length)
      { before with log := before.log ++ [.dispatching] } (fun _ => Through react before) (Through react before) := by
    apply ((atWork_rule react before).dispatchFrom (Nat.zero_add _) (.refl react before)).mono
    · exact fun _ _ work => work.through
    · exact fun _ => id
  replace left := (left.past (run_emit ..)).past (EStateM.run_get ..)
  rcases left.bind with left | ⟨_, middle, ran, left⟩
  · exact loops.leaves left
  · obtain ⟨events, logged, shows⟩ := loops.leaves (.of_returns ran)
    rcases left with ⟨_, ran⟩ | ⟨_, ran⟩ <;> cases ran
    refine ⟨events ++ [.discarded], by simp [logged], ?_, ?_⟩
    · intro index slot
      simpa using shows.handed index slot
    · intro index slot action seen handed
      exact shows.unread index slot action seen (by simpa using handed)

/-- The actions a connected client's update hands a message to all see its whole
payload if and only if, for each action the loop comes to, the payload is empty
or nothing of the message has been read before. -/
theorem update_shows_whole_iff (react : Nat → Nat → Reaction (Message × SendResult))
    {before polled after : World Client} {polls : List (RecvScript MAX_READ_BUFFER)}
    (connected : before.object.fd > 0) (reception : (poll polls).run before = .ok () polled)
    (left : Leaves (update true polls react) before after)
    (queued : polled.object.msgs[index]? = some message) :
    SeesWhole (after.log.drop polled.log.length) index message.buffer.buffer.bytes ↔
      ∀ slot < (polled.object.registered message.type).length, polled.object.Reaches react index slot →
        message.buffer.buffer.bytes = [] ∨ Untouched react index slot message := by
  have dispatches : Leaves (dispatch react) polled after := by
    unfold Leaves at left
    rw [update_connected connected, EStateM.run_bind, reception] at left
    exact left
  obtain ⟨events, logged, shows⟩ := dispatch_shows dispatches
  rw [logged, List.drop_left]
  exact shows.seesWhole_iff queued

end Loop

section Witnesses

attribute [local instance] Platform.littleEndian

/-- A connection with two actions for messages of type 7. -/
def twoActions : Call Client Unit := do
  connect ⟨.opened 5, true, none⟩ "localhost" 8080
  defineAction 7 0
  defineAction 7 1

/-- One reception of a message of type 7 that carries the `int` 42. -/
def fortyTwo : List (RecvScript MAX_READ_BUFFER) :=
  [⟨[⟨[7, 0, 0, 0, 4, 0, 0, 0, 0, 0, 0, 0, 42, 0, 0, 0], by decide, by decide⟩], .failed EAGAIN⟩]

/-- The action registered first reads an `int`. -/
def firstReadsInt (_ slot : Nat) : Reaction (Message × SendResult) := ⟨if slot = 0 then 4 else 0, [], none⟩

/-- The first action reads the `int`, and the second finds nothing left of it. -/
theorem update_hands_on_read_message :
    ∃ before polled after message,
      twoActions.run ⟨.new, 0, []⟩ = .ok () before ∧ (poll fortyTwo).run before = .ok () polled ∧
      Leaves (update true fortyTwo firstReadsInt) before after ∧ polled.object.msgs[0]? = some message ∧
      ¬ SeesWhole (after.log.drop polled.log.length) 0 message.buffer.buffer.bytes := by
  refine ⟨_, _, _, ⟨none, 7, ⟨⟨[42, 0, 0, 0], by decide⟩, 0⟩⟩, rfl, run_exitState (by decide +kernel),
    .of_returns (run_exitState (by decide +kernel)), by decide +kernel, ?_⟩
  intro sees
  have unread := sees 1 1 ⟨none, 7, ⟨⟨[42, 0, 0, 0], by decide⟩, 4⟩⟩ (by decide +kernel)
  exact absurd unread (by decide +kernel)

/-- Two actions that read nothing. -/
theorem update_shows_whole_unread :
    ∃ before polled after message,
      twoActions.run ⟨.new, 0, []⟩ = .ok () before ∧ (poll fortyTwo).run before = .ok () polled ∧
      Leaves (update true fortyTwo fun _ _ => .idle) before after ∧ polled.object.msgs[0]? = some message ∧
      SeesWhole (after.log.drop polled.log.length) 0 message.buffer.buffer.bytes := by
  refine ⟨_, _, _, ⟨none, 7, ⟨⟨[42, 0, 0, 0], by decide⟩, 0⟩⟩, rfl, run_exitState (by decide +kernel),
    .of_returns (run_exitState (by decide +kernel)), by decide +kernel, ?_⟩
  apply (update_shows_whole_iff (fun _ _ => .idle) (by decide +kernel) (run_exitState (by decide +kernel))
    (.of_returns (run_exitState (by decide +kernel))) (by decide +kernel)).mpr
  intro slot _ _
  exact Or.inr ⟨rfl, fun _ _ => rfl⟩

end Witnesses
end Client
end Libftpp
