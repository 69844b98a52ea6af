import Libftpp.ServerRegistry

/-! What reception makes of a server, seen from outside: events are added to the
log, messages to the queue, and clients come and go. What is queued for a
descriptor is what was received on it, piece by piece, and whoever is registered
was so at the beginning or has been accepted since. -/
namespace Libftpp
open Program World

/-- What an event says was received on this descriptor. -/
def Event.bytesFrom (fd : Int) : Event → Option (List UInt8)
  | .received other bytes => if other = fd then some bytes else none
  | _ => none

/-- What was received on a descriptor, `recv` by `recv`. -/
def receivedOn (fd : Int) (log : List Event) : List (List UInt8) := log.filterMap (Event.bytesFrom fd)

theorem Event.Plain.bytesFrom {event : Event} (plain : event.Plain) (fd : Int) : event.bytesFrom fd = none := by
  cases event <;> first | exact plain.elim | rfl

theorem receivedOn_heard (fd other : Int) (bytes : List UInt8) (fresh : List Message) :
    receivedOn other [.received fd bytes, .queued fd fresh] = if fd = other then [bytes] else [] := by
  by_cases same : fd = other <;> simp [receivedOn, List.filterMap_cons, Event.bytesFrom, same]

namespace Server

/-- These events have been logged and these messages queued by reception alone.
What is queued for a descriptor is what its pieces say, one by one, and whoever
is registered was so before or has been accepted since. -/
structure Intake [Platform] (first : World Server) (events : List Event) (fresh : List Message)
    (world : World Server) : Prop where
  logged : world.log = first.log ++ events
  queue : world.object.msgs = first.object.msgs ++ fresh
  tasks : world.object.tasks = first.object.tasks
  dropped : (ledger world.log).dropped = (ledger first.log).dropped
  waiting : (ledger world.log).waiting.length = (ledger first.log).waiting.length + fresh.length
  passes : (ledger world.log).passes = (ledger first.log).passes
  calm : (ledger world.log).interrupted = false → (ledger first.log).interrupted = false
  reads : ∀ fd, readPieces (receivedOn fd events) = .ok ((fresh.filter (·.fd = some fd)).map Message.packet)
  clients : ∀ fd clientId, world.object.clientOf fd = some clientId →
    first.object.clientOf fd = some clientId ∨ .assigned fd clientId ∈ events

section Intake
variable [Platform]

theorem Intake.trans {first middle last : World Server} (early : Intake first events fresh middle)
    (late : Intake middle events' fresh' last) : Intake first (events ++ events') (fresh ++ fresh') last where
  logged := by rw [late.logged, early.logged, List.append_assoc]
  queue := by rw [late.queue, early.queue, List.append_assoc]
  tasks := late.tasks.trans early.tasks
  dropped := late.dropped.trans early.dropped
  waiting := by rw [late.waiting, early.waiting, List.length_append, Nat.add_assoc]
  passes := late.passes.trans early.passes
  calm still := early.calm (late.calm still)
  reads fd := by
    have first := early.reads fd
    have rest := late.reads fd
    rw [receivedOn] at first rest ⊢
    rw [List.filterMap_append, readPieces_append, List.filter_append, List.map_append]
    simp only [first, rest]
  clients fd clientId known := by
    rcases late.clients fd clientId known with before | since
    · rcases early.clients fd clientId before with before | since
      · exact Or.inl before
      · exact Or.inr (List.mem_append_left _ since)
    · exact Or.inr (List.mem_append_right _ since)

/-- What hears nothing and registers nobody without saying so. -/
theorem Intake.beside {before after : World Server} (logged : after.log = before.log ++ events)
    (silent : ∀ event ∈ events, ∀ fd, event.bytesFrom fd = none)
    (msgs : after.object.msgs = before.object.msgs) (tasks : after.object.tasks = before.object.tasks)
    (books : ∃ owner interrupted, ledger after.log = { ledger before.log with owner, interrupted } ∧
      (interrupted = false → (ledger before.log).interrupted = false))
    (clients : ∀ fd clientId, after.object.clientOf fd = some clientId →
      before.object.clientOf fd = some clientId ∨ .assigned fd clientId ∈ events) :
    Intake before events [] after := by
  obtain ⟨owner, interrupted, books, calm⟩ := books
  constructor
  · exact logged
  · rw [msgs, List.append_nil]
  · exact tasks
  · rw [books]
  · rw [books]
    rfl
  · rw [books]
  · rw [books]
    exact calm
  · intro fd
    have nothing : receivedOn fd events = [] :=
      List.filterMap_eq_nil_iff.mpr fun event member => silent event member fd
    rw [nothing]
    rfl
  · exact clients

/-- What is read on a descriptor is queued as the messages of that descriptor. -/
theorem Intake.heard (before : World Server) (pending : Message) {fd : Int} {bytes left : List UInt8}
    {fresh : List Message}
    (reads : Inbox.extractBytes (bytes.length + 1) bytes = .ok (fresh.map Message.packet, left))
    (ours : ∀ message ∈ fresh, message.fd = some fd) :
    Intake before [.received fd bytes, .queued fd fresh] fresh
      { before with
        object := { before.object with
          partialMsgs := before.object.partialMsgs.insert fd pending
          msgs := before.object.msgs ++ fresh }
        log := before.log ++ [.received fd bytes, .queued fd fresh] } := by
  refine ⟨rfl, rfl, rfl, ?_, ?_, ?_, ?_, ?_, fun _ _ => Or.inl⟩
  · rw [ledger_heard]
    rfl
  · rw [ledger_heard]
    simp [Ledger.note]
  · rw [ledger_heard]
    rfl
  · rw [ledger_heard]
    exact id
  · intro other
    by_cases same : fd = other
    · subst same
      have all : fresh.filter (·.fd = some fd) = fresh :=
        List.filter_eq_self.mpr fun message member => decide_eq_true (ours message member)
      rw [all, receivedOn_heard, if_pos rfl]
      exact readPieces_single reads
    · have none : fresh.filter (·.fd = some other) = [] := by
        apply List.filter_eq_nil_iff.mpr
        intro message member
        rw [ours message member]
        simpa using same
      rw [none, receivedOn_heard, if_neg same]
      rfl

/-- One step of reception or sending. -/
theorem Step.intake (step : Step before after) (drained : before.object.Drained) :
    ∃ events fresh, Intake before events fresh after := by
  cases step with
  | quiet same logged =>
    have msgs : (core after.object).msgs = (core before.object).msgs := by rw [same]
    have tasks : (core after.object).tasks = (core before.object).tasks := by rw [same]
    have clients : (core after.object).clients = (core before.object).clients := by rw [same]
    refine ⟨[], [], .beside (by rw [logged, List.append_nil]) (by simp) msgs tasks ⟨_, _, by rw [logged], id⟩ ?_⟩
    intro fd clientId known
    rw [clientOf, show after.object.clients = before.object.clients from clients] at known
    exact Or.inl known
  | @noted _ event plain =>
    obtain ⟨interrupted, books⟩ := @ledger_beside [event] (by simpa using plain.beside) before.log
    refine ⟨[event], [], .beside rfl ?_ rfl rfl ⟨_, interrupted, books⟩ fun _ _ => Or.inl⟩
    simpa using plain.bytesFrom
  | @heard left fresh fd _ _ bytes cleared reads ours =>
    exact ⟨[.received fd bytes, .queued fd fresh], fresh, .heard before _ reads fun message member => (ours message member).1⟩
  | dropped fd => exact ⟨[], [], .beside (List.append_nil _).symm (by simp) rfl rfl ⟨_, _, rfl, id⟩ fun _ _ => Or.inl⟩
  | lost broken => exact absurd drained broken
  | refused connfd text =>
    obtain ⟨interrupted, books⟩ := @ledger_beside
      [.accepted connfd, .printed text, .closed connfd] (by simp) before.log
    exact ⟨_, [], .beside rfl (by simp [Event.bytesFrom]) rfl rfl ⟨_, interrupted, books⟩ fun _ _ => Or.inl⟩
  | registered connfd selectable listening room =>
    refine ⟨_, [], .beside rfl (by simp [Event.bytesFrom]) rfl rfl ?_ ?_⟩
    · refine ⟨fun other => if other = connfd then some before.object.nextId else (ledger before.log).owner other,
        (ledger before.log).interrupted, ?_, id⟩
      rw [List.append_cons, ledger_snoc, ledger_snoc]
      rfl
    · intro fd clientId known
      rcases clientOf_of_register known with ⟨rfl, rfl⟩ | ⟨_, was⟩
      · exact Or.inr (by simp)
      · exact Or.inl was
  | removed fd clientId known =>
    obtain ⟨interrupted, books⟩ := @ledger_beside
      ((if fd > 2 then [.closed fd] else []) ++ [.removed fd clientId])
      (by by_cases owned : fd > 2 <;> simp [owned]) before.log
    refine ⟨_, [], .beside rfl ?_ rfl rfl ⟨_, interrupted, books⟩ ?_⟩
    · by_cases owned : fd > 2 <;> simp [owned, Event.bytesFrom]
    · exact fun _ _ remains => Or.inl (clientOf_of_forget remains).2

theorem intake_of_steps (drained : before.object.Drained) (steps : Relation.ReflTransGen Step before after) :
    (∃ events fresh, Intake before events fresh after) ∧ after.object.Drained := by
  induction steps with
  | refl =>
    exact ⟨⟨[], [], .beside (List.append_nil _).symm (by simp) rfl rfl ⟨_, _, rfl, id⟩ fun _ _ => Or.inl⟩, drained⟩
  | tail _ step ih =>
    obtain ⟨⟨events, fresh, early⟩, drained⟩ := ih
    obtain ⟨events', fresh', late⟩ := step.intake drained
    exact ⟨⟨_, _, early.trans late⟩, step.drained drained⟩

end Intake

end Server
end Libftpp
