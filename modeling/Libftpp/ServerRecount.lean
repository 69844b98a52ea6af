import Libftpp.ClientClosing
import Libftpp.ServerDisconnection

/-! What a server gives to its actions, over whole runs. Whatever comes in, on
whatever connections and however it is cut, is read piece by piece, each piece by
itself, and the messages so read are numbered as they come. Every message an
action is ever given is one of these, with the descriptor it came in on, and it is
whole the first time. Unless a dispatch loop starts over messages of one that an
exception has left, the actions are given each of them once at most, and in the
order in which they came in. -/
namespace Libftpp
open Program World

/-- What stands at increasing places of a list is a sublist of it. -/
theorem sublist_of_places {chosen : List α} {all : List β} {place : α → Nat} {value : α → β}
    (order : chosen.Pairwise (place · < place ·)) (found : ∀ one ∈ chosen, all[place one]? = some (value one)) :
    (chosen.map value).Sublist all := by
  induction chosen using List.reverseRecOn generalizing all with
  | nil => exact List.nil_sublist _
  | append_singleton chosen one ih =>
    obtain ⟨earlier, _, below⟩ := List.pairwise_append.mp order
    obtain ⟨inside, here⟩ := List.getElem?_eq_some_iff.mp (found one (by simp))
    have front : (chosen.map value).Sublist (all.take (place one)) := by
      apply ih earlier
      intro other member
      rw [List.getElem?_take_of_lt (below other member one (by simp))]
      exact found other (by simp [member])
    have upTo : all.take (place one) ++ [all[place one]] = all.take (place one + 1) := by simp
    rw [List.map_append, List.map_singleton, ← here]
    exact (front.append_right _).trans (upTo ▸ List.take_sublist ..)

section Hearing
variable [Platform]

/-- The messages that one `recv` brings, with the descriptor it was on. -/
def Event.brings : Event → List (Int × Packet)
  | .received fd bytes =>
    match readPieces [bytes] with
    | .ok packets => packets.map (fd, ·)
    | .error _ => []
  | _ => []

/-- All messages that have come in, in order. -/
def incoming (log : List Event) : List (Int × Packet) := log.flatMap Event.brings

theorem incoming_append (log events : List Event) : incoming (log ++ events) = incoming log ++ incoming events :=
  List.flatMap_append

/-- The event is none of reception. -/
def Event.Deaf (event : Event) : Prop := event.brings = [] ∧ ∀ fd, event.bytesFrom fd = none

theorem Event.Plain.deaf {event : Event} (plain : event.Plain) : event.Deaf :=
  ⟨by cases event <;> first | exact plain.elim | rfl, plain.bytesFrom⟩

/-- Nothing has come in since. -/
def Unheard (before after : List Event) : Prop :=
  incoming after = incoming before ∧ ∀ fd, receivedOn fd after = receivedOn fd before

theorem unheard_of_deaf {events : List Event} (deaf : ∀ event ∈ events, event.Deaf) (log : List Event) :
    Unheard log (log ++ events) := by
  constructor
  · have nothing : incoming events = [] := List.flatMap_eq_nil_iff.mpr fun event member => (deaf event member).1
    rw [incoming_append, nothing, List.append_nil]
  · intro fd
    have nothing : receivedOn fd events = [] :=
      List.filterMap_eq_nil_iff.mpr fun event member => (deaf event member).2 fd
    rw [receivedOn, List.filterMap_append, show events.filterMap (Event.bytesFrom fd) = [] from nothing,
      List.append_nil]
    rfl

theorem incoming_heard {fd : Int} {bytes left : List UInt8} {fresh : List Message}
    (reads : Inbox.extractBytes (bytes.length + 1) bytes = .ok (fresh.map Message.packet, left)) (log : List Event) :
    incoming (log ++ [.received fd bytes, .queued fd fresh]) =
      incoming log ++ fresh.map fun message => (fd, message.packet) := by
  rw [incoming_append]
  simp [incoming, Event.brings, readPieces_single reads]

/-- What has come in on one descriptor. -/
def incomingOn (fd : Int) (log : List Event) : List Packet :=
  ((incoming log).filter (·.1 = fd)).map Prod.snd

theorem incomingOn_heard {fd : Int} {bytes left : List UInt8} {fresh : List Message}
    (reads : Inbox.extractBytes (bytes.length + 1) bytes = .ok (fresh.map Message.packet, left)) (log : List Event)
    (other : Int) :
    incomingOn other (log ++ [.received fd bytes, .queued fd fresh]) =
      incomingOn other log ++ if fd = other then fresh.map Message.packet else [] := by
  unfold incomingOn
  rw [incoming_heard reads, List.filter_append, List.map_append]
  by_cases same : fd = other <;> simp [same, List.filter_map, Function.comp_def]

/-- The message is the one with this number among those that have come in, and
whole if it has not been handed over before. -/
def Recalls (packets : List (Int × Packet)) (earlier : List Pass) (serial : Nat) (message : Message) : Prop :=
  ∃ fd packet, packets[serial]? = some (fd, packet) ∧ message.fd = some fd ∧ Says packet message ∧
    ((∀ pass ∈ earlier, pass.serial ≠ serial) → message.packet = packet)

omit [Platform] in
theorem Recalls.grown {packets : List (Int × Packet)} {earlier passes : List Pass}
    (recalls : Recalls packets earlier serial message) (part : packets <+: more)
    (grown : ∀ pass ∈ earlier, pass ∈ passes) : Recalls more passes serial message := by
  obtain ⟨fd, packet, came, from_, alike, whole⟩ := recalls
  obtain ⟨tail, rfl⟩ := part
  refine ⟨fd, packet, ?_, from_, alike, fun none => whole fun pass member => none pass (grown pass member)⟩
  rw [List.getElem?_append_left (List.getElem?_eq_some_iff.mp came).1]
  exact came

omit [Platform] in
/-- The message has been handed over, and read. -/
theorem Recalls.handed {packets : List (Int × Packet)} {earlier passes : List Pass}
    (recalls : Recalls packets earlier serial message) (reads : Nat)
    (handed : ∃ pass ∈ passes, pass.serial = serial) : Recalls packets passes serial (message.readBy reads) := by
  obtain ⟨fd, packet, came, from_, told, _⟩ := recalls
  obtain ⟨pass, member, same⟩ := handed
  exact ⟨fd, packet, came, from_, told.trans (message.sameContent_refl.readBy reads), fun none => absurd same (none pass member)⟩

end Hearing

namespace Server

section Recounts
variable [Platform]

/-- What is queued are the last of the messages that have come in, and what has
been passed are some of them. -/
structure Recounts (world : World Server) : Prop where
  counted : (ledger world.log).waiting.length = world.object.msgs.length
  numbered : (ledger world.log).dropped + world.object.msgs.length = (incoming world.log).length
  queue : ∀ index message, world.object.msgs[index]? = some message →
    Recalls (incoming world.log) (ledger world.log).passes ((ledger world.log).dropped + index) message
  passed : ∀ earlier pass later, (ledger world.log).passes = earlier ++ pass :: later →
    Recalls (incoming world.log) earlier pass.serial pass.message
  pieces : ∀ fd, readPieces (receivedOn fd world.log) = .ok (incomingOn fd world.log)

theorem recounts_of_new (address : String) (port : UInt64) (active readyRead : FdSet) (errno : Int) :
    Recounts ⟨.new address port active readyRead, errno, []⟩ := by
  refine ⟨rfl, rfl, ?_, ?_, fun _ => rfl⟩
  · intro index message never
    cases never
  · intro earlier pass later shape
    exact absurd shape (by simp [ledger, Ledger.start])

/-- What brings, passes and drops nothing. -/
theorem Recounts.beside {before after : World Server} (recounts : Recounts before)
    (msgs : after.object.msgs = before.object.msgs) (unheard : Unheard before.log after.log)
    (books : ∃ owner interrupted, ledger after.log = { ledger before.log with owner, interrupted }) :
    Recounts after := by
  obtain ⟨owner, interrupted, books⟩ := books
  obtain ⟨same, heard⟩ := unheard
  constructor
  · rw [books, msgs]
    exact recounts.counted
  · rw [books, msgs, same]
    exact recounts.numbered
  · rw [books, msgs, same]
    exact recounts.queue
  · rw [books, same]
    exact recounts.passed
  · intro fd
    rw [heard, incomingOn, same]
    exact recounts.pieces fd

/-- A piece is read by itself, and its messages are the next ones. -/
theorem Recounts.heard {before : World Server} {fd : Int} {bytes left : List UInt8} {fresh : List Message}
    (recounts : Recounts before) (partialMsgs : AList fun _ : Int => Message)
    (reads : Inbox.extractBytes (bytes.length + 1) bytes = .ok (fresh.map Message.packet, left))
    (ours : ∀ message ∈ fresh, message.fd = some fd ∧ message.Untouched) :
    Recounts
      { before with
        object := { before.object with partialMsgs, msgs := before.object.msgs ++ fresh }
        log := before.log ++ [.received fd bytes, .queued fd fresh] } := by
  have more : incoming before.log <+: incoming (before.log ++ [.received fd bytes, .queued fd fresh]) := by
    rw [incoming_append]
    exact List.prefix_append _ _
  constructor
  · rw [ledger_heard]
    simp [Ledger.note, recounts.counted]
  · rw [ledger_heard, incoming_heard reads, List.length_append, List.length_append, List.length_map,
      ← recounts.numbered, Nat.add_assoc]
    rfl
  · intro index message found
    rw [ledger_heard]
    dsimp only at found
    by_cases old : index < before.object.msgs.length
    · rw [List.getElem?_append_left old] at found
      exact (recounts.queue index message found).grown more fun _ => id
    · rw [List.getElem?_append_right (Nat.le_of_not_lt old)] at found
      have member := List.mem_of_getElem? found
      obtain ⟨from_, untouched⟩ := ours message member
      refine ⟨fd, message.packet, ?_, from_, untouched.told, fun _ => rfl⟩
      have place : (ledger before.log).dropped + index =
          (incoming before.log).length + (index - before.object.msgs.length) := by
        rw [← recounts.numbered]
        omega
      change (incoming _)[(ledger before.log).dropped + index]? = _
      rw [incoming_heard reads, place, List.getElem?_append_right (Nat.le_add_right _ _), Nat.add_sub_cancel_left,
        List.getElem?_map, found]
      rfl
  · rw [ledger_heard]
    exact fun earlier pass later shape => (recounts.passed earlier pass later shape).grown more fun _ => id
  · intro other
    have onOther : receivedOn other (before.log ++ [.received fd bytes, .queued fd fresh]) =
        receivedOn other before.log ++ if fd = other then [bytes] else [] := by
      rw [← receivedOn_heard fd other bytes fresh]
      exact List.filterMap_append
    dsimp only
    rw [onOther, incomingOn_heard reads, readPieces_append, recounts.pieces]
    by_cases here : fd = other
    · simp only [here, if_true, readPieces_single reads]
    · simp only [here, if_false, readPieces]

/-- A message of the queue is given to an action. -/
theorem Recounts.invoked {before : World Server} {index action : Nat} {clientId : Int} {message : Message}
    (recounts : Recounts before) (found : before.object.msgs[index]? = some message) (reads : Nat) :
    Recounts
      { before with
        object := { before.object with msgs := before.object.msgs.set index (message.readBy reads) }
        log := before.log ++ [.invoked index 0 action (some clientId) message] } := by
  obtain ⟨same, heard⟩ : Unheard before.log (before.log ++ [.invoked index 0 action (some clientId) message]) :=
    unheard_of_deaf (by simp [Event.Deaf, Event.brings, Event.bytesFrom]) _
  have here := recounts.queue index message found
  constructor
  · rw [ledger_snoc, List.length_set]
    exact recounts.counted
  · rw [ledger_snoc, List.length_set, same]
    exact recounts.numbered
  · intro other now shape
    rw [ledger_snoc, same]
    rw [List.getElem?_set] at shape
    split at shape
    · rename_i at_
      subst at_
      split at shape
      · cases shape
        exact here.handed reads ⟨_, List.mem_append_right _ (List.mem_singleton.mpr rfl), rfl⟩
      · cases shape
    · exact (recounts.queue other now shape).grown List.prefix_rfl fun _ => List.mem_append_left _
  · intro earlier pass later shape
    rw [ledger_snoc] at shape
    rw [same]
    rcases List.eq_nil_or_concat later with rfl | ⟨middle, last, rfl⟩
    · obtain ⟨rfl, one⟩ := List.append_inj' shape rfl
      cases one
      exact here
    · rw [List.concat_eq_append, ← List.cons_append, ← List.append_assoc] at shape
      exact recounts.passed earlier pass middle (List.append_inj' shape rfl).1
  · intro fd
    rw [heard, incomingOn, same]
    exact recounts.pieces fd

/-- The queue is emptied. -/
theorem Recounts.emptied {before after : World Server} (recounts : Recounts before) (msgs : after.object.msgs = [])
    (unheard : Unheard before.log after.log) (books : ledger after.log = (ledger before.log).note .discarded) :
    Recounts after := by
  obtain ⟨same, heard⟩ := unheard
  constructor
  · rw [books, msgs]
    rfl
  · rw [books, msgs, same, ← recounts.numbered, ← recounts.counted]
    rfl
  · intro index message found
    rw [msgs] at found
    cases found
  · rw [books, same]
    exact recounts.passed
  · intro fd
    rw [heard, incomingOn, same]
    exact recounts.pieces fd

theorem closing_deaf (server : Server) : ∀ event ∈ server.closing ++ [.discarded], event.Deaf := by
  intro event member
  rcases List.mem_append.mp member with closes | last
  · rcases closing_cases closes with ⟨_, rfl⟩ | ⟨_, rfl⟩ <;> exact ⟨rfl, fun _ => rfl⟩
  · rw [List.mem_singleton.mp last]
    exact ⟨rfl, fun _ => rfl⟩

theorem Recounts.stopped {world : World Server} (recounts : Recounts world) : Recounts (stopped world) :=
  recounts.emptied rfl (unheard_of_deaf (closing_deaf _) _) (ledger_closing ..)

/-- One step of reception or sending. -/
theorem Recounts.step (recounts : Recounts before) (step : Step before after) (drained : before.object.Drained) :
    Recounts after := by
  cases step with
  | quiet same logged =>
    have msgs : (core after.object).msgs = (core before.object).msgs := by rw [same]
    exact recounts.beside msgs (logged ▸ ⟨rfl, fun _ => rfl⟩) ⟨_, _, by rw [logged]⟩
  | @noted _ event plain =>
    obtain ⟨interrupted, books, _⟩ := @ledger_beside [event] (by simpa using plain.beside) before.log
    exact recounts.beside rfl (unheard_of_deaf (by simpa using plain.deaf) _) ⟨_, interrupted, books⟩
  | heard bytes cleared reads ours => exact recounts.heard _ reads ours
  | dropped fd => exact recounts.beside rfl ⟨rfl, fun _ => rfl⟩ ⟨_, _, rfl⟩
  | lost broken => exact absurd drained broken
  | refused connfd text =>
    obtain ⟨interrupted, books, _⟩ := @ledger_beside
      [.accepted connfd, .printed text, .closed connfd] (by simp) before.log
    exact recounts.beside rfl (unheard_of_deaf (by simp [Event.Deaf, Event.brings, Event.bytesFrom]) _) ⟨_, interrupted, books⟩
  | registered connfd selectable listening room =>
    refine recounts.beside rfl (unheard_of_deaf (by simp [Event.Deaf, Event.brings, Event.bytesFrom]) _)
      ⟨fun other => if other = connfd then some before.object.nextId else (ledger before.log).owner other,
        (ledger before.log).interrupted, ?_⟩
    rw [List.append_cons, ledger_snoc, ledger_snoc]
    rfl
  | removed fd clientId known =>
    obtain ⟨interrupted, books, _⟩ := @ledger_beside
      ((if fd > 2 then [.closed fd] else []) ++ [.removed fd clientId])
      (by by_cases owned : fd > 2 <;> simp [owned]) before.log
    refine recounts.beside rfl (unheard_of_deaf ?_ _) ⟨_, interrupted, books⟩
    by_cases owned : fd > 2 <;> simp [owned, Event.Deaf, Event.brings, Event.bytesFrom]

theorem Recounts.turn (recounts : Recounts before) (turn : Turn before after) (drained : before.object.Drained) :
    Recounts after := by
  cases turn with
  | step step => exact recounts.step step drained
  | defined tasks => exact recounts.beside rfl ⟨rfl, fun _ => rfl⟩ ⟨_, _, rfl⟩
  | invoked found from_ known reads => exact recounts.invoked found reads
  | discarded =>
    exact (@Recounts.emptied _ _ ⟨{ before.object with msgs := [] }, _, _⟩ recounts rfl
      (unheard_of_deaf (by simp [Event.Deaf, Event.brings, Event.bytesFrom]) _) (ledger_snoc ..))
  | stopped => exact recounts.stopped

/-- A `start` leaves the queue alone or empties it. -/
theorem Recounts.start (recounts : Recounts before) (exit : StartExit before after) : Recounts after := by
  cases exit with
  | unopened errno => exact recounts.beside rfl ⟨rfl, fun _ => rfl⟩ ⟨_, _, rfl⟩
  | @gaveUp notes fd maxFd errno active plain =>
    obtain ⟨interrupted, books, _⟩ := ledger_beside (beside_opening fd plain) before.log
    apply Recounts.stopped
    refine recounts.beside rfl (unheard_of_deaf ?_ _) ⟨_, interrupted, books⟩
    exact List.forall_mem_cons.mpr ⟨⟨rfl, fun _ => rfl⟩, fun event member => (plain event member).deaf⟩
  | @listening notes fd errno selectable plain =>
    obtain ⟨interrupted, books, _⟩ := ledger_beside (beside_listening fd plain) before.log
    refine recounts.beside rfl (unheard_of_deaf ?_ _) ⟨_, interrupted, books⟩
    intro event member
    rcases List.mem_append.mp member with early | last
    · rcases List.mem_cons.mp early with rfl | note
      · exact ⟨rfl, fun _ => rfl⟩
      · exact (plain event note).deaf
    · rw [List.mem_singleton.mp last]
      exact ⟨rfl, fun _ => rfl⟩

/-! ### The order of the passes -/

/-- On the way from one state to the other, the messages with these places in the
queue have been passed at most, each once at most, and in their order. -/
structure Marches (low high : Nat) (before after : World Server) : Prop where
  dropped : (ledger after.log).dropped = (ledger before.log).dropped
  passes : ∃ new, (ledger after.log).passes = (ledger before.log).passes ++ new ∧
    new.Pairwise (·.serial < ·.serial) ∧
    ∀ pass ∈ new, (ledger before.log).dropped + low ≤ pass.serial ∧ pass.serial < (ledger before.log).dropped + high

omit [Platform] in
theorem marches_of_books {before after : World Server}
    (books : ∃ interrupted, ledger after.log = { ledger before.log with interrupted }) :
    Marches low high before after := by
  obtain ⟨interrupted, books⟩ := books
  constructor
  · rw [books]
  · exact ⟨[], by rw [books, List.append_nil], .nil, by simp⟩

omit [Platform] in
theorem Marches.trans {before middle after : World Server} (early : Marches low between before middle)
    (late : Marches between high middle after) (least : low ≤ between) (most : between ≤ high) :
    Marches low high before after where
  dropped := late.dropped.trans early.dropped
  passes := by
    obtain ⟨first, firstPasses, firstOrder, firstRange⟩ := early.passes
    obtain ⟨second, secondPasses, secondOrder, secondRange⟩ := late.passes
    rw [early.dropped] at secondRange
    refine ⟨first ++ second, by rw [secondPasses, firstPasses, List.append_assoc], ?_, ?_⟩
    · refine List.pairwise_append.mpr ⟨firstOrder, secondOrder, fun pass old other new => ?_⟩
      exact (firstRange pass old).2.trans_le (secondRange other new).1
    · intro pass member
      rcases List.mem_append.mp member with old | new
      · have range := firstRange pass old
        omega
      · have range := secondRange pass new
        omega

/-- One message goes to one action, or to none. -/
theorem dispatchMessage_marches (react : Nat → Reaction Reply)
    (left : Leaves (dispatchMessage react index) before after) : Marches index (index + 1) before after := by
  replace left := left.past (EStateM.run_get ..)
  split at left
  · exact left.undefined.elim
  rename_i message found
  split at left
  · rcases left with ⟨_, ran⟩ | ⟨_, ran⟩ <;> cases ran
    exact marches_of_books ⟨_, rfl⟩
  rename_i action handled
  split at left
  · exact left.undefined.elim
  rename_i fd from_
  split at left
  · rcases left with ⟨_, ran⟩ | ⟨_, ran⟩ <;> cases ran
    exact marches_of_books ⟨_, rfl⟩
  rename_i clientId known
  replace left := (left.past (run_emit ..)).past (run_alter ..)
  have books : ∃ interrupted, ledger after.log =
      { (ledger before.log).note (.invoked index 0 action (some clientId) message) with interrupted } := by
    rcases left with ⟨_, ran⟩ | ⟨error, ran⟩
    · have replied := replied_of_steps (act_replied _ _ _ (.of_returns (noting_returns.mp ran)))
      exact ⟨_, by rw [replied.books, ledger_snoc]⟩
    · obtain ⟨middle, threw, rfl⟩ := noting_throws.mp ran
      have replied := replied_of_steps (act_replied _ _ _ (Or.inr ⟨error, threw⟩))
      exact ⟨true, by rw [ledger_snoc, replied.books, ledger_snoc]; rfl⟩
  obtain ⟨interrupted, books⟩ := books
  constructor
  · rw [books]
    rfl
  · refine ⟨[_], by rw [books]; rfl, List.pairwise_singleton .., ?_⟩
    intro pass member
    rw [List.mem_singleton.mp member]
    dsimp only
    omega

theorem dispatchFrom_marches (react : Nat → Reaction Reply)
    (left : Leaves (dispatchFrom react index remaining) before after) :
    Marches index (index + remaining) before after := by
  induction remaining generalizing index before with
  | zero =>
    rcases left with ⟨_, ran⟩ | ⟨_, ran⟩ <;> cases ran
    exact marches_of_books ⟨_, rfl⟩
  | succ remaining ih =>
    rcases left.bind with left | ⟨_, middle, ran, left⟩
    · have first := dispatchMessage_marches react left
      exact first.trans (marches_of_books ⟨_, rfl⟩) (Nat.le_succ _) (by omega)
    · have first := dispatchMessage_marches react (.of_returns ran)
      have rest := ih left
      rw [Nat.add_assoc, Nat.add_comm 1] at rest
      exact first.trans rest (Nat.le_succ _) (by omega)

/-- The loop of a whole dispatch. -/
theorem dispatch_marches (react : Nat → Reaction Reply) (left : Leaves (dispatch react) before after) :
    ∃ new, (ledger after.log).passes = (ledger before.log).passes ++ new ∧ new.Pairwise (·.serial < ·.serial) ∧
      ∀ pass ∈ new, (ledger before.log).dropped ≤ pass.serial := by
  replace left := (left.past (run_emit ..)).past (EStateM.run_get ..)
  have loop : ∃ looped, Leaves (dispatchFrom react 0 before.object.msgs.length)
      { before with log := before.log ++ [.dispatching] } looped ∧
        (ledger after.log).passes = (ledger looped.log).passes := by
    rcases left.bind with left | ⟨_, looped, ran, left⟩
    · exact ⟨after, left, rfl⟩
    · refine ⟨looped, .of_returns ran, ?_⟩
      replace left := left.past (run_emit ..)
      rcases left with ⟨_, ran⟩ | ⟨_, ran⟩ <;> cases ran
      rw [ledger_snoc]
      rfl
  obtain ⟨looped, left, same⟩ := loop
  obtain ⟨new, passes, order, range⟩ := (dispatchFrom_marches react left).passes
  rw [ledger_snoc] at passes range
  exact ⟨new, same.trans passes, order, fun pass member => (range pass member).1⟩

/-- Unless messages are dispatched again, they are passed in their order. -/
def Ordered (world : World Server) : Prop :=
  NoDispatchAfterThrow world.log → (ledger world.log).passes.Pairwise (·.serial < ·.serial)

omit [Platform] in
theorem Ordered.kept {before after : World Server} (ordered : Ordered before) (logged : before.log <+: after.log)
    (passes : (ledger after.log).passes = (ledger before.log).passes) : Ordered after := by
  intro calm
  rw [passes]
  exact ordered (calm.before logged)

theorem Ordered.steps (ordered : Ordered before) (drained : before.object.Drained)
    (steps : Relation.ReflTransGen Step before after) : Ordered after := by
  obtain ⟨⟨events, fresh, intake⟩, _⟩ := intake_of_steps drained steps
  refine ordered.kept ?_ intake.passes
  rw [intake.logged]
  exact List.prefix_append _ _

omit [Platform] in
theorem Ordered.start (ordered : Ordered before) (exit : StartExit before after) : Ordered after := by
  apply ordered.kept exit.logged
  cases exit with
  | unopened errno => rfl
  | gaveUp fd maxFd errno active plain =>
    obtain ⟨interrupted, books, _⟩ := ledger_beside (beside_opening fd plain) before.log
    refine (congrArg Ledger.passes (ledger_closing ..)).trans ?_
    rw [books]
    rfl
  | listening fd errno selectable plain =>
    obtain ⟨interrupted, books, _⟩ := ledger_beside (beside_listening fd plain) before.log
    rw [books]

/-- A loop that may start comes behind all that was passed before. -/
theorem dispatch_ordered (sound : Sound before) (ordered : Ordered before)
    (left : Leaves (dispatch react) before after) : Ordered after := by
  have logged : before.log ++ [.dispatching] <+: after.log := by
    refine (@Meets.leaves _ _ _ _ (fun after => before.log ++ [.dispatching] <+: after.log) _ _ ?_) left
    exact (dispatch_meets react before).mono (fun _ _ dispatched => dispatched.logged) fun _ abandoned => abandoned.logged
  intro calm
  obtain ⟨new, passes, order, range⟩ := dispatch_marches react left
  rw [passes]
  have earlier := ordered (calm.before ((List.prefix_append _ _).trans logged))
  refine List.pairwise_append.mpr ⟨earlier, order, fun pass old other late => ?_⟩
  have behind := (sound.midway calm logged).behind pass (by rw [ledger_snoc]; exact old)
  rw [ledger_snoc] at behind
  change pass.serial < (ledger before.log).dropped + 0 ∨ _ ∧ pass.slot < 0 at behind
  have ahead := range other late
  omega

theorem update_ordered (sound : Sound before) (ordered : Ordered before)
    (left : Leaves (update rounds last react) before after) : Ordered after := by
  have begun : Relation.ReflTransGen Step before
      { before with object := { before.object with running := true } } := .single (.quiet rfl rfl)
  replace left := left.past (run_alter ..)
  rcases left.bind with left | ⟨ended, selected, ran, left⟩
  · exact ordered.steps sound.drained (begun.trans (selectLoop_steps last rounds _ _ left))
  · have steps := begun.trans (selectLoop_steps last rounds _ _ (.of_returns ran))
    have kept := ordered.steps sound.drained steps
    rcases left.ite with ⟨_, left⟩ | ⟨_, left⟩
    · exact dispatch_ordered (sound.steps steps) kept left
    · rcases left with ⟨_, ran⟩ | ⟨_, ran⟩ <;> cases ran
      exact kept

theorem perform_ordered (operation : Operation) (sound : Sound before) (ordered : Ordered before)
    (left : Leaves (perform operation) before after) : Ordered after := by
  have drained := sound.drained
  cases operation with
  | start script port => exact ordered.start (start_exits left)
  | accept result => exact ordered.steps drained (acceptNewConnection_steps result _ _ left)
  | receive fd script => exact ordered.steps drained (receive_steps fd script _ _ left)
  | remove fd => exact ordered.steps drained (clearClient_steps (.value fd) _ _ left)
  | defineAction messageType action =>
    rcases left with ⟨_, ran⟩ | ⟨_, ran⟩ <;> cases ran
    exact ordered
  | sendTo message clientId result => exact ordered.steps drained (sendTo_steps message clientId result _ _ left)
  | sendToArray message clientIds => exact ordered.steps drained (sendToArray_steps message clientIds _ _ left)
  | update rounds last react => exact update_ordered sound ordered left
  | stop =>
    rcases left with ⟨_, ran⟩ | ⟨_, ran⟩ <;> cases (stop_run before).symm.trans ran
    exact ordered.kept (List.prefix_append _ _) ((congrArg Ledger.passes (ledger_closing ..)).trans rfl)

theorem Run.sound_ordered (run : Run allowed first last) (sound : Sound first) (ordered : Ordered first) :
    Sound last ∧ Ordered last := by
  induction run with
  | start => exact ⟨sound, ordered⟩
  | call operation _ _ left ih => exact ⟨perform_sound operation ih.1 left, perform_ordered operation ih.1 ih.2 left⟩

theorem Run.recounts {address : String} {port : UInt64} {active readyRead : FdSet} {errno : Int}
    (run : Run allowed ⟨.new address port active readyRead, errno, []⟩ world) : Recounts world := by
  have kept := run.keeps (fun _ _ => True) Recounts (fun _ _ turn drained _ recounts => recounts.turn turn drained)
    (fun _ _ _ _ exit _ _ recounts => recounts.start exit) (drained_of_none rfl) (recounts_of_new ..)
  exact kept.2 fun _ _ _ _ => trivial

/-- Messages that are passed in their order are passed as they came in. -/
theorem Recounts.whole (recounts : Recounts world)
    (order : (ledger world.log).passes.Pairwise (·.serial < ·.serial)) {pass : Pass}
    (member : pass ∈ (ledger world.log).passes) :
    ∃ fd, pass.message.fd = some fd ∧ (incoming world.log)[pass.serial]? = some (fd, pass.message.packet) := by
  obtain ⟨earlier, later, shape⟩ := List.append_of_mem member
  obtain ⟨fd, packet, came, from_, _, whole⟩ := recounts.passed earlier pass later shape
  have first : ∀ other ∈ earlier, other.serial ≠ pass.serial := by
    rw [shape] at order
    exact fun other old => Nat.ne_of_lt ((List.pairwise_append.mp order).2.2 other old pass (List.mem_cons_self ..))
  exact ⟨fd, from_, whole first ▸ came⟩

/-- In every run, as far as its calls have a meaning, whatever an action is given is
one of the messages that have come in, with its descriptor, and whole the first
time. Unless a dispatch loop starts over messages of one that an exception has
left, the passes follow the order in which the messages came in, with each one
once at most. -/
theorem passes_recount {address : String} {port : UInt64} {active readyRead : FdSet} {errno : Int}
    (run : Run allowed ⟨.new address port active readyRead, errno, []⟩ world) :
    (∀ earlier pass later, (ledger world.log).passes = earlier ++ pass :: later →
      Recalls (incoming world.log) earlier pass.serial pass.message) ∧
    (NoDispatchAfterThrow world.log →
      (ledger world.log).passes.Pairwise (·.serial < ·.serial) ∧
      ∀ pass ∈ (ledger world.log).passes, ∃ fd, pass.message.fd = some fd ∧
        (incoming world.log)[pass.serial]? = some (fd, pass.message.packet)) := by
  obtain ⟨_, ordered⟩ := run.sound_ordered (Sound.new ..) fun _ => .nil
  exact ⟨run.recounts.passed, fun calm => ⟨ordered calm, fun _ member => run.recounts.whole (ordered calm) member⟩⟩

/-- What the actions are given of one descriptor. -/
def passedFrom (fd : Int) (passes : List Pass) : List Packet :=
  (passes.filter (·.message.fd = some fd)).map (·.message.packet)

/-- Where no piece of a descriptor ends inside a frame, the actions are given
messages that were sent on it, each once at most, in the order of sending. -/
theorem passed_as_sent {address : String} {port : UInt64} {active readyRead : FdSet} {errno : Int}
    (run : Run allowed ⟨.new address port active readyRead, errno, []⟩ world) (calm : NoDispatchAfterThrow world.log)
    (stream : (receivedOn fd world.log).flatten = Packet.codec.encodeAll packets)
    (uncut : Uncut (receivedOn fd world.log) (packets.map Packet.encode)) :
    (passedFrom fd (ledger world.log).passes).Sublist packets := by
  have recounts := run.recounts
  obtain ⟨_, ordered⟩ := run.sound_ordered (Sound.new ..) fun _ => .nil
  have sent : incomingOn fd world.log = packets :=
    Except.ok.inj ((recounts.pieces fd).symm.trans (readPieces_of_uncut stream uncut))
  have all : ((ledger world.log).passes.map fun pass => (pass.message.fd.getD 0, pass.message.packet)).Sublist
      (incoming world.log) := by
    apply sublist_of_places (ordered calm)
    intro pass member
    obtain ⟨other, from_, came⟩ := recounts.whole (ordered calm) member
    rw [from_]
    exact came
  have ours := (all.filter (·.1 = fd)).map Prod.snd
  rw [List.filter_map, List.map_map] at ours
  have same : ∀ pass ∈ (ledger world.log).passes, decide (pass.message.fd = some fd) =
      decide (pass.message.fd.getD 0 = fd) := by
    intro pass member
    obtain ⟨other, from_, _⟩ := recounts.whole (ordered calm) member
    simp [from_]
  rw [← sent, passedFrom, List.filter_congr same]
  exact ours

end Recounts

section Witnesses

attribute [local instance] Platform.littleEndian

/-- A message of type 7 that holds one byte, and the beginning of another. -/
def byteAndRest : Round :=
  ⟨(· = 5), .failed EAGAIN,
    fun _ => ⟨[⟨[7, 0, 0, 0, 1, 0, 0, 0, 0, 0, 0, 0, 42, 7, 0], by decide, by decide⟩], .failed EAGAIN⟩,
    fun _ => none⟩

/-- It comes in twice, and goes to the action as it came in. -/
theorem passes_recount_twice : ∃ world : World Server,
    Run (fun _ _ => True) ⟨.new "" 8080 .zero .zero, 0, []⟩ world ∧ (ledger world.log).passes.length = 2 ∧
    (∀ earlier pass later, (ledger world.log).passes = earlier ++ pass :: later →
      Recalls (incoming world.log) earlier pass.serial pass.message) ∧
    (NoDispatchAfterThrow world.log →
      (ledger world.log).passes.Pairwise (·.serial < ·.serial) ∧
      ∀ pass ∈ (ledger world.log).passes, ∃ fd, pass.message.fd = some fd ∧
        (incoming world.log)[pass.serial]? = some (fd, pass.message.packet)) := by
  have run := @run_of_inTurn _ _ _ _ (served [byteAndRest, byteAndRest])
    (@Run.start _ _ ⟨.new "" 8080 .zero .zero, 0, []⟩) (run_exitState (by decide +kernel))
  exact ⟨_, run, by decide +kernel, passes_recount run⟩

/-- Two frames of type 7, one in each of two rounds, come in whole. -/
theorem passed_as_sent_twice : ∃ world : World Server, (ledger world.log).passes.length = 2 ∧
    (passedFrom 5 (ledger world.log).passes).Sublist
      [(⟨none, 7, .empty⟩ : Message).packet, (⟨none, 7, .empty⟩ : Message).packet] := by
  have run := @run_of_inTurn _ _ _ _ (served [frameRound (.failed EAGAIN), frameRound (.failed EAGAIN)])
    (@Run.start _ _ ⟨.new "" 8080 .zero .zero, 0, []⟩) (run_exitState (by decide +kernel))
  refine ⟨_, ?_, passed_as_sent run (by decide +kernel) ?_ (uncut_of_readPieces ?_ ?_)⟩
  all_goals decide +kernel

end Witnesses

end Server
end Libftpp
