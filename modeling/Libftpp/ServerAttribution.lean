import Libftpp.Dispatch
import Libftpp.ServerRegistry

/-! To whom a server attributes a message. A message is queued with the
descriptor it was received on, and only its dispatch looks up the client ID of
that descriptor. In between the descriptor may be closed and accepted anew, and
then the message goes to the action under the ID of the later connection. -/
namespace Libftpp
open Program World

/-- No connection is accepted on a descriptor while messages received on that
descriptor are still queued. -/
def NoReuseWhileQueued (before : List Event) (event : Event) : Prop :=
  ∀ fd clientId, event = .assigned fd clientId → ∀ entry ∈ (ledger before).waiting, entry.1 ≠ fd

instance (before : List Event) (event : Event) : Decidable (NoReuseWhileQueued before event) :=
  match event with
  | .assigned fd clientId =>
    decidable_of_iff (∀ entry ∈ (ledger before).waiting, entry.1 ≠ fd)
      ⟨fun holds other otherId same => by cases same; exact holds, fun holds => holds fd clientId rfl⟩
  | .opened _ | .accepted _ | .closed _ | .bound .. | .connecting .. | .started | .removed .. | .received ..
  | .queued .. | .dispatching | .invoked .. | .threw | .discarded | .sent .. | .printed _ =>
    isTrue fun _ _ same => by cases same

namespace Server

/-- The account of the log agrees with the queue, and whoever is registered on
the descriptor of a queued message is the one who sent it. -/
structure Attributed (world : World Server) : Prop where
  paired : List.Forall₂ (fun message entry => message.fd = some entry.1) world.object.msgs
    (ledger world.log).waiting
  current : ∀ fd clientId, world.object.clientOf fd = some clientId → (ledger world.log).owner fd = some clientId
  senders : ∀ entry ∈ (ledger world.log).waiting, ∀ clientId,
    world.object.clientOf entry.1 = some clientId → entry.2 = some clientId
  passed : ∀ pass ∈ (ledger world.log).passes, pass.clientId = pass.origin

/-- What leaves the queue alone, registers nobody, and writes nothing about messages. -/
theorem Attributed.kept (attributed : Attributed before) (msgs : after.object.msgs = before.object.msgs)
    (clients : ∀ fd clientId, after.object.clientOf fd = some clientId → before.object.clientOf fd = some clientId)
    (books : ∃ interrupted, ledger after.log = { ledger before.log with interrupted } ∧
      (interrupted = false → (ledger before.log).interrupted = false)) : Attributed after := by
  obtain ⟨interrupted, books, _⟩ := books
  constructor
  · rw [msgs, books]
    exact attributed.paired
  · intro fd clientId known
    rw [books]
    exact attributed.current fd clientId (clients fd clientId known)
  · intro entry member clientId known
    rw [books] at member
    exact attributed.senders entry member clientId (clients _ clientId known)
  · rw [books]
    exact attributed.passed

/-- New messages come from whoever is registered on their descriptor. -/
theorem Attributed.heard {fresh : List Message} {fd : Int} (attributed : Attributed before)
    (partialMsgs : AList fun _ : Int => Message) (bytes : List UInt8)
    (ours : ∀ message ∈ fresh, message.fd = some fd) :
    Attributed
      { before with
        object := { before.object with partialMsgs, msgs := before.object.msgs ++ fresh }
        log := before.log ++ [.received fd bytes, .queued fd fresh] } := by
  constructor
  · rw [ledger_heard]
    apply List.rel_append attributed.paired
    rw [List.forall₂_map_right_iff, List.forall₂_same]
    exact ours
  · rw [ledger_heard]
    exact attributed.current
  · intro entry member clientId known
    rw [ledger_heard] at member
    rcases List.mem_append.mp member with old | new
    · exact attributed.senders entry old clientId known
    · obtain ⟨_, _, rfl⟩ := List.mem_map.mp new
      exact attributed.current fd clientId known
  · rw [ledger_heard]
    exact attributed.passed

/-- A new connection on a descriptor for which nothing is queued. -/
theorem Attributed.registered {connfd : Int} (attributed : Attributed before) (selectable : Selectable connfd)
    (unused : ∀ entry ∈ (ledger before.log).waiting, entry.1 ≠ connfd) :
    Attributed
      { before with
        object := before.object.register connfd selectable
        log := before.log ++ [.accepted connfd, .assigned connfd before.object.nextId] } := by
  have books : ledger (before.log ++ [.accepted connfd, .assigned connfd before.object.nextId]) =
      { ledger before.log with
        owner := fun other => if other = connfd then some before.object.nextId else (ledger before.log).owner other } := by
    rw [List.append_cons, ledger_snoc, ledger_snoc]
    rfl
  constructor
  · rw [books]
    exact attributed.paired
  · intro fd clientId known
    rw [books]
    dsimp only at known ⊢
    rw [clientOf_register] at known
    by_cases same : fd = connfd
    · rw [if_pos same] at known ⊢
      exact known
    · rw [if_neg same] at known ⊢
      exact attributed.current fd clientId known
  · intro entry member clientId known
    rw [books] at member
    dsimp only at known
    rw [clientOf_register, if_neg (unused entry member)] at known
    exact attributed.senders entry member clientId known
  · rw [books]
    exact attributed.passed

/-- The ID an action is given is that of the sender. -/
theorem Attributed.invoked {index action : Nat} {fd clientId : Int} (attributed : Attributed before)
    (found : before.object.msgs[index]? = some message) (from_ : message.fd = some fd)
    (known : before.object.clientOf fd = some clientId) (reads : Nat) :
    Attributed
      { before with
        object := { before.object with msgs := before.object.msgs.set index (message.readBy reads) }
        log := before.log ++ [.invoked index 0 action (some clientId) message] } := by
  have same : (message.readBy reads).fd = message.fd := rfl
  obtain ⟨entry, waits, pairs⟩ : ∃ entry, (ledger before.log).waiting[index]? = some entry ∧
      message.fd = some entry.1 := by
    obtain ⟨inside, rfl⟩ := List.getElem?_eq_some_iff.mp found
    have bound := attributed.paired.length_eq ▸ inside
    exact ⟨_, List.getElem?_eq_getElem bound, attributed.paired.get inside bound⟩
  have sender : entry.1 = fd := by
    rw [from_] at pairs
    exact (Option.some.inj pairs).symm
  constructor
  · rw [ledger_snoc]
    exact (forall₂_set attributed.paired.flip waits (same.symm ▸ pairs)).flip
  · rw [ledger_snoc]
    exact attributed.current
  · rw [ledger_snoc]
    exact attributed.senders
  · intro pass member
    rw [ledger_snoc] at member
    rcases List.mem_append.mp member with old | new
    · exact attributed.passed pass old
    · rw [List.mem_singleton.mp new]
      change some clientId = (ledger before.log).waiting[index]?.bind Prod.snd
      rw [waits]
      exact (attributed.senders entry (List.mem_of_getElem? waits) clientId (sender ▸ known)).symm

/-- An emptied queue attributes nothing. -/
theorem Attributed.emptied (attributed : Attributed before) (msgs : after.object.msgs = [])
    (clients : ∀ fd clientId, after.object.clientOf fd = some clientId → before.object.clientOf fd = some clientId)
    (waiting : (ledger after.log).waiting = []) (owner : (ledger after.log).owner = (ledger before.log).owner)
    (passes : (ledger after.log).passes = (ledger before.log).passes) : Attributed after := by
  constructor
  · rw [msgs, waiting]
    exact .nil
  · intro fd clientId known
    rw [owner]
    exact attributed.current fd clientId (clients fd clientId known)
  · intro entry member
    rw [waiting] at member
    cases member
  · rw [passes]
    exact attributed.passed

theorem Attributed.stopped (attributed : Attributed before) : Attributed (Server.stopped before) := by
  have books : ledger (Server.stopped before).log = (ledger before.log).note .discarded := ledger_closing ..
  apply attributed.emptied rfl
  · intro fd clientId known
    cases known
  all_goals
    rw [books]
    rfl

/-- One step of any call. -/
theorem Attributed.step [Platform] (attributed : Attributed before) (step : Step before after)
    (drained : before.object.Drained) (unreused : Throughout NoReuseWhileQueued after.log) : Attributed after := by
  cases step with
  | quiet same logged =>
    have msgs : (core after.object).msgs = (core before.object).msgs := by rw [same]
    have clients : (core after.object).clients = (core before.object).clients := by rw [same]
    apply attributed.kept msgs
    · intro fd clientId known
      rw [clientOf, show after.object.clients = before.object.clients from clients] at known
      exact known
    · exact ⟨_, by rw [logged], id⟩
  | noted plain =>
    exact attributed.kept rfl (fun _ _ => id) (ledger_beside (by simpa using plain.beside) before.log)
  | heard bytes cleared reads ours => exact attributed.heard _ bytes fun message member => (ours message member).1
  | dropped fd => exact attributed.kept rfl (fun _ _ => id) ⟨_, rfl, id⟩
  | lost broken => exact absurd drained broken
  | refused connfd text =>
    exact attributed.kept rfl (fun _ _ => id)
      (ledger_beside (by simp) before.log)
  | registered connfd selectable listening room =>
    have unused := unreused (before.log ++ [.accepted connfd]) _ [] (List.append_cons ..) connfd _ rfl
    rw [ledger_snoc] at unused
    exact attributed.registered selectable unused
  | removed fd clientId known =>
    apply attributed.kept
    · rfl
    · exact fun _ _ remains => (clientOf_of_forget remains).2
    · apply ledger_beside
      by_cases owned : fd > 2 <;> simp [owned]

theorem Attributed.turn [Platform] (attributed : Attributed before) (turn : Turn before after)
    (drained : before.object.Drained) (unreused : Throughout NoReuseWhileQueued after.log) : Attributed after := by
  cases turn with
  | step step => exact attributed.step step drained unreused
  | defined tasks => exact attributed.kept rfl (fun _ _ => id) ⟨_, rfl, id⟩
  | invoked found from_ known reads => exact attributed.invoked found from_ known reads
  | discarded =>
    refine @Attributed.emptied _ ⟨{ before.object with msgs := [] }, _, _⟩ attributed rfl (fun _ _ => id) ?_ ?_ ?_
    all_goals
      rw [ledger_snoc]
      rfl
  | stopped => exact attributed.stopped

/-- A `start` leaves the queue alone or empties it. -/
theorem Attributed.start (attributed : Attributed before) (exit : StartExit before after) : Attributed after := by
  cases exit with
  | unopened errno => exact attributed.kept rfl (fun _ _ => id) ⟨_, rfl, id⟩
  | gaveUp fd maxFd errno active plain =>
    apply Attributed.stopped
    apply attributed.kept
    · rfl
    · exact fun _ _ => id
    · exact ledger_beside (beside_opening fd plain) before.log
  | listening fd errno selectable plain =>
    apply attributed.kept
    · rfl
    · exact fun _ _ => id
    · exact ledger_beside (beside_listening fd plain) before.log

theorem attributed_of_new (address : String) (port : UInt64) (active readyRead : FdSet) (errno : Int) :
    Attributed ⟨.new address port active readyRead, errno, []⟩ where
  paired := .nil
  current fd clientId known := by cases known
  senders entry member := by cases member
  passed pass member := by cases member

/-- In every run in which no descriptor is accepted anew while messages received
on it are queued, every action is given the ID of the connection on which its
message was received. (A run is over before a call without a meaning.) -/
theorem passes_attributed [Platform] {address : String} {port : UInt64} {active readyRead : FdSet} {errno : Int}
    (run : Run (fun _ _ => True) ⟨.new address port active readyRead, errno, []⟩ world)
    (unreused : Throughout NoReuseWhileQueued world.log) :
    ∀ pass ∈ (ledger world.log).passes, pass.clientId = pass.origin := by
  have kept := run.keeps NoReuseWhileQueued Attributed
    (fun before after turn drained unreused attributed => attributed.turn turn drained unreused)
    (fun before after script port exit _ _ attributed => attributed.start exit)
    (drained_of_none rfl) (attributed_of_new ..)
  exact (kept.2 unreused).passed

section Witnesses

attribute [local instance] Platform.littleEndian

/-- A round in which descriptor 5 has a frame of type 7 to read, and then this end. -/
def frameRound (last : RecvEnd) : Round :=
  ⟨(· = 5), .failed EAGAIN, fun _ => ⟨[⟨[7, 0, 0, 0, 0, 0, 0, 0, 0, 0, 0, 0], by decide, by decide⟩], last⟩,
    fun _ => none⟩

/-- A round in which a connection is accepted on descriptor 5. -/
def acceptRound : Round := ⟨(· = 3), .opened 5, fun _ => ⟨[], .failed EAGAIN⟩, fun _ => none⟩

/-- Calls after which a server that listens on descriptor 3 knows an action for
type 7 and updates with these rounds. -/
def served (rounds : List Round) : List Operation :=
  [.start ⟨.opened 3, none, true, none, none⟩ 0, .accept (.opened 5), .defineAction 7 1,
    .update rounds .timeout fun _ => .idle]

/-- One message, dispatched to the client it came from. -/
theorem passes_attributed_one_message : ∃ world,
    Run (fun _ _ => True) ⟨.new "" 8080 .zero .zero, 0, []⟩ world ∧ (ledger world.log).passes.length = 1 ∧
      ∀ pass ∈ (ledger world.log).passes, pass.clientId = pass.origin := by
  have run := @run_of_inTurn _ _ _ _ (served [frameRound (.failed EAGAIN)])
    (@Run.start _ _ ⟨.new "" 8080 .zero .zero, 0, []⟩) (run_exitState (by decide +kernel))
  exact ⟨_, run, by decide +kernel, passes_attributed run (by decide +kernel)⟩

/-- The client on descriptor 5 sends a message and disconnects, and the next
client is accepted on descriptor 5 in the same update: the message is dispatched
under the ID of the second. -/
theorem reused_descriptor_misattributed : ∃ world,
    Run (fun _ _ => True) ⟨.new "" 8080 .zero .zero, 0, []⟩ world ∧ Throughout AcceptsFresh world.log ∧
      ¬ ∀ pass ∈ (ledger world.log).passes, pass.clientId = pass.origin := by
  have run := @run_of_inTurn _ _ _ _ (served [frameRound .endOfFile, acceptRound])
    (@Run.start _ _ ⟨.new "" 8080 .zero .zero, 0, []⟩) (run_exitState (by decide +kernel))
  exact ⟨_, run, by decide +kernel, by decide +kernel⟩

end Witnesses

end Server
end Libftpp
