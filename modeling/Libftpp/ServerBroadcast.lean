import Libftpp.Sending

/-! `Server::sendToAll`: a range-based loop over `_clients` whose body may erase
from `_clients`. A client whose `::send` fails is removed through a reference into
the entry that goes with it, while the loop's iterator stands on its element. As
long as no `::send` fails, every client is sent the message once. -/
namespace Libftpp
open Program World

namespace Server

/-- One element the loop comes to, with the result of its `::send`. -/
structure Visit where
  fd : Int
  clientId : Int
  result : SendResult

/-- Its `::send` returns -1. -/
def Visit.Failed (visit : Visit) : Prop := ∃ errno, visit.result = .failed errno

/-- What one attempt to send these bytes shows in the log. -/
def Visit.attempt (frame : List UInt8) (visit : Visit) : List Event :=
  match visit.result with
  | .took count => [.sent visit.fd (frame.take count)]
  | .failed _ => (if visit.fd > 2 then [.closed visit.fd] else []) ++ [.removed visit.fd visit.clientId,
      .printed ("Failed to send message to client " ++ toString visit.clientId ++ "\n")]

/-- The order in which the loop comes to the elements of `_clients`. -/
structure Traversal (server : Server) where
  visits : List Visit
  whole : (visits.map fun visit => (⟨visit.fd, visit.clientId⟩ : Sigma fun _ : Int => Int)).Perm server.clients.entries

/-- Every element of `_clients` belongs to a registered client. -/
def AllRegistered (server : Server) : Prop :=
  ∀ fd clientId, server.clientOf fd = some clientId → server.Registered fd clientId

theorem Traversal.clientOf {server : Server} (traversal : Traversal server) :
    ∀ visit ∈ traversal.visits, server.clientOf visit.fd = some visit.clientId := by
  intro visit member
  have entry := traversal.whole.subset (List.mem_map_of_mem member)
  exact AList.mem_lookup_iff.mpr entry

section Calls
variable [Platform]

/-- `Server::sendToAll`. Erasing an element invalidates the iterators to it and
no others, so the loop may go on as long as its element is there. -/
def sendToAll (message : Message) : List Visit → Call Server Unit
  | [] => pure ()
  | visit :: visits => do
    sendTo message visit.clientId visit.result
    let world ← get
    if (world.object.clientOf visit.fd).isSome then sendToAll message visits else undefinedBehaviour

/-- One attempt for each client registered at the call, in the order of the loop;
afterwards those whose `::send` failed are known under neither descriptor nor
ID, and all others are. -/
structure Served (message : Message) (visits : List Visit) (before after : World Server) : Prop where
  attempts : ∃ frame, (visits ≠ [] → Message.getSerializedData.run message = .ok frame message) ∧
    after.log = before.log ++ visits.flatMap (Visit.attempt frame)
  clients : ∀ fd clientId, after.object.clientOf fd = some clientId ↔
    before.object.clientOf fd = some clientId ∧ ∀ visit ∈ visits, visit.fd = fd → ¬ visit.Failed
  fds : ∀ clientId fd, after.object.fdOf clientId = some fd ↔
    before.object.fdOf clientId = some fd ∧ ∀ visit ∈ visits, visit.clientId = clientId → ¬ visit.Failed

/-- A `::send` that takes something over leaves the registry as it is. -/
theorem sendToAll_took (message : Message) {visits : List Visit} {world : World Server}
    (registered : ∀ visit ∈ visits, world.object.Registered visit.fd visit.clientId)
    (took : ∀ visit ∈ visits, ¬ visit.Failed)
    (serialized : visits ≠ [] → Message.getSerializedData.run message = .ok frame message) :
    (sendToAll message visits).run world =
      .ok () { world with log := world.log ++ visits.flatMap (Visit.attempt frame) } := by
  induction visits generalizing world with
  | nil => simp [sendToAll]
  | cons visit visits ih =>
    rw [List.forall_mem_cons] at registered took
    have ran := serialized (List.cons_ne_nil _ _)
    obtain ⟨count, result⟩ : ∃ count, visit.result = .took count := by
      cases result : visit.result with
      | took count => exact ⟨count, rfl⟩
      | failed errno => exact absurd ⟨errno, result⟩ took.1
    have sends := sendTo_took registered.1 ran count
    have stays : (world.object.clientOf visit.fd).isSome := by
      rw [registered.1.2.1]
      rfl
    rw [sendToAll, result, EStateM.run_bind, sends]
    simp only [EStateM.run_bind, EStateM.run_get, stays, ↓reduceIte]
    rw [@ih { world with log := world.log ++ [.sent visit.fd (frame.take count)] } registered.2 took.2 fun _ => ran]
    simp [Visit.attempt, result]

/-- A `sendTo` to a registered client returns only if the message can be
serialized. -/
theorem sendTo_serializes {message : Message} {world : World Server} (registered : world.object.Registered fd clientId)
    (ran : (sendTo message clientId result).run world = .ok () after) :
    ∃ frame, Message.getSerializedData.run message = .ok frame message := by
  obtain ⟨listed, _, watched⟩ := registered
  have selectable := world.object.active.inside fd watched
  rw [sendTo, EStateM.run_bind, EStateM.run_get] at ran
  simp only [listed, selectable, watched, not_true_eq_false, ↓reduceIte] at ran
  obtain ⟨frame, _, observed, _⟩ := bind_returns.mp ran
  rw [run_observe] at observed
  split at observed
  · rename_i serialized
    cases observed
    exact ⟨frame, (Message.getSerializedData_returns serialized).2.1 ▸ serialized⟩
  · cases observed

/-- The loop returns only if it has removed nobody. -/
theorem sendToAll_returns {message : Message} {visits : List Visit} {world : World Server}
    (registered : ∀ visit ∈ visits, world.object.Registered visit.fd visit.clientId)
    (ran : (sendToAll message visits).run world = .ok () after) :
    (visits ≠ [] → ∃ frame, Message.getSerializedData.run message = .ok frame message) ∧
      ∀ visit ∈ visits, ¬ visit.Failed := by
  induction visits generalizing world with
  | nil => exact ⟨fun none => absurd rfl none, nofun⟩
  | cons visit visits ih =>
    rw [List.forall_mem_cons] at registered ⊢
    obtain ⟨_, middle, sends, rest⟩ := bind_returns.mp ran
    obtain ⟨frame, serialized⟩ := sendTo_serializes registered.1 sends
    cases result : visit.result with
    | failed errno =>
      -- the entry that holds the descriptor has been erased
      rw [result, sendTo_failed registered.1 serialized] at sends
      cases sends
    | took count =>
      rw [result, sendTo_took registered.1 serialized] at sends
      cases sends
      have stays : (world.object.clientOf visit.fd).isSome := by
        rw [registered.1.2.1]
        rfl
      rw [EStateM.run_bind, EStateM.run_get] at rest
      simp only [stays, ↓reduceIte] at rest
      have later := @ih { world with log := world.log ++ [.sent visit.fd (frame.take count)] } registered.2 rest
      refine ⟨fun _ => ⟨frame, serialized⟩, ?_, later.2⟩
      rintro ⟨errno, failed⟩
      rw [result] at failed
      cases failed

/-- However the loop comes to the clients and whatever their `::send`s return:
each is sent the message once, and exactly those whose `::send` fails are
removed, if and only if none fails, the message being one that can be
serialized. -/
theorem sendToAll_serves_iff {world : World Server} (registered : AllRegistered world.object)
    (traversal : Traversal world.object) (message : Message) :
    (∃ after, (sendToAll message traversal.visits).run world = .ok () after ∧
        Served message traversal.visits world after) ↔
      (traversal.visits ≠ [] → ∃ frame, Message.getSerializedData.run message = .ok frame message) ∧
        ∀ visit ∈ traversal.visits, ¬ visit.Failed := by
  have each : ∀ visit ∈ traversal.visits, world.object.Registered visit.fd visit.clientId :=
    fun visit member => registered _ _ (traversal.clientOf visit member)
  constructor
  · rintro ⟨after, ran, _⟩
    exact sendToAll_returns each ran
  · rintro ⟨serialized, took⟩
    obtain ⟨frame, written⟩ : ∃ frame, traversal.visits ≠ [] → Message.getSerializedData.run message = .ok frame message := by
      by_cases none : traversal.visits = []
      · exact ⟨[], fun some => absurd none some⟩
      · exact (serialized none).imp fun _ ran _ => ran
    refine ⟨_, sendToAll_took message each took written, ⟨frame, written, rfl⟩, ?_, ?_⟩
    · exact fun fd clientId => ⟨fun known => ⟨known, fun visit member _ => took visit member⟩, fun ⟨known, _⟩ => known⟩
    · exact fun clientId fd => ⟨fun found => ⟨found, fun visit member _ => took visit member⟩, fun ⟨found, _⟩ => found⟩

end Calls

/-- In a registry that is in order, all clients are registered. -/
theorem Registry.allRegistered (registry : Registry world) : AllRegistered world.object := by
  intro fd clientId known
  exact ⟨(registry.inverse fd clientId).mp known, known, registry.watched fd clientId known⟩

section Witnesses

attribute [local instance] Platform.littleEndian

theorem connectedServer_registered : AllRegistered connectedServer.object := by
  intro fd clientId known
  replace known := (clientOf_register (.new "" 8080 .zero .zero) 5 fd (by decide)).symm.trans known
  by_cases same : fd = 5
  · rw [if_pos same] at known
    cases known
    rw [same]
    exact ⟨rfl, rfl, by decide⟩
  · rw [if_neg same] at known
    cases known

/-- The loop over its one client. -/
def onlyClient (result : SendResult) : Traversal connectedServer.object := ⟨[⟨5, 0, result⟩], .refl _⟩

/-- A message of type 7 without payload is sent to the only client. -/
theorem sendToAll_serves_one : ∃ after,
    (sendToAll ⟨none, 7, .empty⟩ (onlyClient (.took 12)).visits).run connectedServer = .ok () after ∧
      Served ⟨none, 7, .empty⟩ (onlyClient (.took 12)).visits connectedServer after := by
  refine (sendToAll_serves_iff connectedServer_registered (onlyClient (.took 12)) ⟨none, 7, .empty⟩).mpr ⟨?_, ?_⟩
  · exact fun _ => ⟨_, rfl⟩
  · intro visit member
    rw [List.mem_singleton.mp member]
    rintro ⟨errno, failed⟩
    cases failed

/-- The `::send` to the only client fails: the element the iterator stands on is
erased, and with it the entry that the erased client's descriptor is read from. -/
theorem sendToAll_advances_erased : ∃ after,
    (sendToAll ⟨none, 7, .empty⟩ (onlyClient (.failed EPIPE)).visits).run connectedServer = .error .undefined after ∧
      after.object.clientOf 5 = none :=
  ⟨_, rfl, rfl⟩

end Witnesses

end Server
end Libftpp
