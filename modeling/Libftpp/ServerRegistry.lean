import Libftpp.ServerSteps

/-! The registry of a server: two maps between descriptors and IDs, the set of
watched descriptors and the largest of them. Six calls change it, each a part at
a time. Together they keep the maps inverse of each other and the set in
agreement with them, as long as the system hands out descriptors that are not
open. -/
namespace Libftpp
open Program World

/-! ### What a log says about descriptors and IDs -/

/-- The descriptors open after an event. -/
def Event.noteFd (fds : Finset Int) : Event → Finset Int
  | .opened fd => insert fd fds
  | .accepted fd => insert fd fds
  | .closed fd => fds.erase fd
  | _ => fds

/-- The descriptors a log leaves open. -/
def openFds (log : List Event) : Finset Int := log.foldl Event.noteFd ∅

/-- The ID an event gives to a connection. -/
def Event.assignedId : Event → Option Int
  | .assigned _ clientId => some clientId
  | _ => none

/-- The IDs given to connections, in order. -/
def assignedIds (log : List Event) : List Int := log.filterMap Event.assignedId

theorem openFds_append (log events : List Event) :
    openFds (log ++ events) = events.foldl Event.noteFd (openFds log) := by
  rw [openFds, List.foldl_append]
  rfl

theorem assignedIds_append (log events : List Event) :
    assignedIds (log ++ events) = assignedIds log ++ assignedIds events := List.filterMap_append ..

/-- `accept` returns descriptors that are not open, and none below 3 or beyond
the capacity of an `fd_set`. -/
def AcceptsFresh (before : List Event) (event : Event) : Prop :=
  ∀ fd, event = .accepted fd → 2 < fd ∧ fd < FD_SETSIZE ∧ fd ∉ openFds before

instance (before : List Event) (event : Event) : Decidable (AcceptsFresh before event) :=
  match event with
  | .accepted fd =>
    decidable_of_iff (2 < fd ∧ fd < FD_SETSIZE ∧ fd ∉ openFds before)
      ⟨fun holds other same => by cases same; exact holds, fun holds => holds fd rfl⟩
  | .opened _ | .closed _ | .bound .. | .connecting .. | .started | .assigned .. | .removed .. | .received ..
  | .queued .. | .dispatching | .invoked .. | .threw | .discarded | .sent .. | .printed _ =>
    isTrue fun _ same => by cases same

theorem Event.Plain.fds {event : Event} (plain : event.Plain) (fds : Finset Int) : event.noteFd fds = fds := by
  cases event <;> first | exact plain.elim | rfl

theorem Event.Plain.unassigned {event : Event} (plain : event.Plain) : event.assignedId = none := by
  cases event <;> first | exact plain.elim | rfl

namespace Server

/-- `start` is called on a server without a listening socket. -/
def StartsIdle (operation : Operation) (world : World Server) : Prop :=
  ∀ script port, operation = .start script port → world.object.socket = -1

/-- The registry is in order. -/
structure Registry (world : World Server) : Prop where
  inverse : ∀ fd clientId, world.object.clientOf fd = some clientId ↔ world.object.fdOf clientId = some fd
  distinct : (assignedIds world.log).Nodup
  watched : ∀ fd clientId, world.object.clientOf fd = some clientId → fd ∈ world.object.active.fds
  known : ∀ fd ∈ world.object.active.fds, fd = world.object.socket ∨ (world.object.clientOf fd).isSome
  bounded : ∀ fd ∈ world.object.active.fds, fd ≤ world.object.maxFd
  room : world.object.clients.entries.length ≤ NB_CONNECTION

/-- What every step keeps: the registry is in order but for the watched
descriptors, which make sense only after a `start` has returned. -/
structure Consistent (world : World Server) : Prop where
  inverse : ∀ fd clientId, world.object.clientOf fd = some clientId ↔ world.object.fdOf clientId = some fd
  distinct : (assignedIds world.log).Nodup
  counted : world.object.nextId = (assignedIds world.log).length
  below : ∀ clientId ∈ assignedIds world.log, clientId < world.object.nextId
  given : ∀ fd clientId, world.object.clientOf fd = some clientId → clientId < world.object.nextId
  watched : ∀ fd clientId, world.object.clientOf fd = some clientId → fd ∈ world.object.active.fds
  opened : ∀ fd clientId, world.object.clientOf fd = some clientId → 2 < fd ∧ fd ∈ openFds world.log
  room : world.object.clients.entries.length ≤ NB_CONNECTION
  idle : world.object.socket = -1 → world.object.clients = ∅
  tracked : .started ∈ world.log → ∀ fd ∈ world.object.active.fds,
    (fd = world.object.socket ∨ (world.object.clientOf fd).isSome) ∧ fd ≤ world.object.maxFd

theorem Consistent.registry (consistent : Consistent world) (started : .started ∈ world.log) : Registry world where
  inverse := consistent.inverse
  distinct := consistent.distinct
  watched := consistent.watched
  known fd member := (consistent.tracked started fd member).1
  bounded fd member := (consistent.tracked started fd member).2
  room := consistent.room

/-- The parts of a server that make up its registry. -/
structure Registers where
  socket : Int
  maxFd : Int
  nextId : Int
  active : FdSet
  clients : AList fun _ : Int => Int
  clientsToFd : AList fun _ : Int => Int

def registers (server : Server) : Registers :=
  ⟨server.socket, server.maxFd, server.nextId, server.active, server.clients, server.clientsToFd⟩

/-- The same registry, by a log that says the same about it. -/
structure Alike (before after : World Server) : Prop where
  same : registers after.object = registers before.object
  fds : openFds after.log = openFds before.log
  ids : assignedIds after.log = assignedIds before.log
  started : .started ∈ after.log → .started ∈ before.log

theorem Consistent.kept (consistent : Consistent before) (alike : Alike before after) : Consistent after := by
  obtain ⟨same, fds, ids, started⟩ := alike
  have socket : after.object.socket = before.object.socket := congrArg Registers.socket same
  have maxFd : after.object.maxFd = before.object.maxFd := congrArg Registers.maxFd same
  have nextId : after.object.nextId = before.object.nextId := congrArg Registers.nextId same
  have active : after.object.active = before.object.active := congrArg Registers.active same
  have clients : after.object.clients = before.object.clients := congrArg Registers.clients same
  have clientsToFd : after.object.clientsToFd = before.object.clientsToFd := congrArg Registers.clientsToFd same
  constructor
  all_goals simp only [clientOf, fdOf, socket, maxFd, nextId, active, clients, clientsToFd, fds, ids]
  · exact consistent.inverse
  · exact consistent.distinct
  · exact consistent.counted
  · exact consistent.below
  · exact consistent.given
  · exact consistent.watched
  · exact consistent.opened
  · exact consistent.room
  · exact consistent.idle
  · exact fun member => consistent.tracked (started member)

/-- Events that say nothing about descriptors, IDs or a `start`. -/
def Unrelated (events : List Event) : Prop :=
  ∀ event ∈ events, (∀ fds, event.noteFd fds = fds) ∧ event.assignedId = none ∧ event ≠ .started

theorem unrelated_of_plain {events : List Event} (plain : ∀ event ∈ events, event.Plain) : Unrelated events := by
  intro event member
  have here := plain event member
  exact ⟨here.fds, here.unassigned, by rintro rfl; exact here⟩

theorem Unrelated.openFds {events : List Event} (unrelated : Unrelated events) (log : List Event) :
    openFds (log ++ events) = openFds log := by
  induction events generalizing log with
  | nil => rw [List.append_nil]
  | cons event events ih =>
    have first : Libftpp.openFds (log ++ [event]) = Libftpp.openFds log :=
      (openFds_append ..).trans ((unrelated event (List.mem_cons_self ..)).1 _)
    rw [List.append_cons, ih fun other member => unrelated other (List.mem_cons_of_mem _ member), first]

theorem Unrelated.assignedIds {events : List Event} (unrelated : Unrelated events) (log : List Event) :
    assignedIds (log ++ events) = assignedIds log := by
  have nothing : Libftpp.assignedIds events = [] :=
    List.filterMap_eq_nil_iff.mpr fun event member => (unrelated event member).2.1
  rw [assignedIds_append, nothing, List.append_nil]

/-- Whatever leaves the registry alone and writes nothing about it. -/
theorem Unrelated.alike {before after : World Server} (unrelated : Unrelated events)
    (same : registers after.object = registers before.object) (logged : after.log = before.log ++ events) :
    Alike before after := by
  refine ⟨same, ?_, ?_, ?_⟩
  · rw [logged, unrelated.openFds]
  · rw [logged, unrelated.assignedIds]
  · rw [logged]
    intro member
    rcases List.mem_append.mp member with earlier | late
    · exact earlier
    · exact absurd rfl (unrelated .started late).2.2

/-! ### The calls that change the registry -/

@[simp] theorem clientOf_register (server : Server) (connfd other : Int) (selectable : Selectable connfd) :
    (server.register connfd selectable).clientOf other =
      if other = connfd then some server.nextId else server.clientOf other := by
  by_cases same : other = connfd
  · subst same
    simp [clientOf, register]
  · simp [clientOf, register, AList.lookup_insert_ne same, same]

@[simp] theorem fdOf_register (server : Server) (connfd clientId : Int) (selectable : Selectable connfd) :
    (server.register connfd selectable).fdOf clientId =
      if clientId = server.nextId then some connfd else server.fdOf clientId := by
  by_cases same : clientId = server.nextId
  · subst same
    simp [fdOf, register]
  · simp [fdOf, register, AList.lookup_insert_ne same, same]

@[simp] theorem clientOf_forget (server : Server) (fd clientId other : Int) :
    (server.forget fd clientId).clientOf other = if other = fd then none else server.clientOf other := by
  by_cases same : other = fd
  · subst same
    simp [clientOf, forget, unregister, dropPartial]
  · simp [clientOf, forget, unregister, dropPartial, AList.lookup_erase_ne same, same]

/-- Whoever is known after a registration is the newcomer or was known before. -/
theorem clientOf_of_register {server : Server} {connfd other clientId : Int} {selectable : Selectable connfd}
    (known : (server.register connfd selectable).clientOf other = some clientId) :
    other = connfd ∧ clientId = server.nextId ∨ other ≠ connfd ∧ server.clientOf other = some clientId := by
  rw [clientOf_register] at known
  by_cases same : other = connfd
  · rw [if_pos same] at known
    exact Or.inl ⟨same, (Option.some.inj known).symm⟩
  · rw [if_neg same] at known
    exact Or.inr ⟨same, known⟩

/-- Whoever is left after a removal was there before. -/
theorem clientOf_of_forget {server : Server} {fd clientId other otherId : Int}
    (remains : (server.forget fd clientId).clientOf other = some otherId) :
    other ≠ fd ∧ server.clientOf other = some otherId := by
  rw [clientOf_forget] at remains
  by_cases same : other = fd
  · rw [if_pos same] at remains
    cases remains
  · rw [if_neg same] at remains
    exact ⟨same, remains⟩

@[simp] theorem fdOf_forget (server : Server) (fd clientId other : Int) :
    (server.forget fd clientId).fdOf other = if other = clientId then none else server.fdOf other :=
  fdOf_unregister server fd clientId other

/-- A new ID and a descriptor that was free keep the maps inverse to each other. -/
theorem inverse_register {server : Server} {connfd : Int} (selectable : Selectable connfd)
    (inverse : ∀ fd clientId, server.clientOf fd = some clientId ↔ server.fdOf clientId = some fd)
    (given : ∀ fd clientId, server.clientOf fd = some clientId → clientId < server.nextId)
    (absent : server.clientOf connfd = none) (fd clientId : Int) :
    (server.register connfd selectable).clientOf fd = some clientId ↔
      (server.register connfd selectable).fdOf clientId = some fd := by
  rw [clientOf_register, fdOf_register]
  by_cases same : fd = connfd
  · subst same
    by_cases newest : clientId = server.nextId
    · simp [newest]
    · -- An older ID cannot belong to a descriptor that was free.
      rw [if_pos rfl, if_neg newest, ← inverse, absent]
      simpa using Ne.symm newest
  · by_cases newest : clientId = server.nextId
    · rw [if_neg same, if_pos newest]
      constructor
      · intro known
        exact absurd (given fd clientId known) (newest ▸ lt_irrefl _)
      · intro found
        exact absurd (Option.some.inj found).symm same
    · rw [if_neg same, if_neg newest]
      exact inverse fd clientId

/-- So does taking a client out of both. -/
theorem inverse_forget {server : Server} {fd clientId : Int}
    (inverse : ∀ fd clientId, server.clientOf fd = some clientId ↔ server.fdOf clientId = some fd)
    (known : server.clientOf fd = some clientId) (other otherId : Int) :
    (server.forget fd clientId).clientOf other = some otherId ↔
      (server.forget fd clientId).fdOf otherId = some other := by
  rw [clientOf_forget, fdOf_forget]
  by_cases same : other = fd
  · subst same
    by_cases sameId : otherId = clientId
    · rw [if_pos rfl, if_pos sameId]
      simp
    · rw [if_pos rfl, if_neg sameId, ← inverse, known]
      simpa using Ne.symm sameId
  · by_cases sameId : otherId = clientId
    · subst sameId
      rw [if_neg same, if_pos rfl, inverse, (inverse ..).mp known]
      simpa using Ne.symm same
    · rw [if_neg same, if_neg sameId]
      exact inverse other otherId

/-- A connection on a descriptor that was not open gets an ID of its own. -/
theorem Consistent.registered {connfd : Int} (consistent : Consistent before) (selectable : Selectable connfd)
    (listening : ¬ before.object.socket < 0) (room : before.object.clients.entries.length < NB_CONNECTION)
    (large : 2 < connfd) (unused : connfd ∉ openFds before.log) :
    Consistent
      { before with
        object := before.object.register connfd selectable
        log := before.log ++ [.accepted connfd, .assigned connfd before.object.nextId] } := by
  have absent : before.object.clientOf connfd = none := by
    cases known : before.object.clientOf connfd with
    | none => rfl
    | some clientId => exact absurd (consistent.opened connfd clientId known).2 unused
  have unassigned : before.object.nextId ∉ assignedIds before.log := by
    intro member
    exact absurd (consistent.below _ member) (lt_irrefl _)
  have ids : assignedIds (before.log ++ [.accepted connfd, .assigned connfd before.object.nextId]) =
      assignedIds before.log ++ [before.object.nextId] := assignedIds_append ..
  have fds : openFds (before.log ++ [.accepted connfd, .assigned connfd before.object.nextId]) =
      insert connfd (openFds before.log) := openFds_append ..
  constructor
  · exact inverse_register selectable consistent.inverse consistent.given absent
  · rw [ids]
    refine List.Nodup.append consistent.distinct (List.nodup_singleton _) ?_
    exact List.disjoint_singleton.mpr unassigned
  · rw [ids, List.length_append]
    exact congrArg (· + 1) consistent.counted
  · intro clientId member
    change clientId < before.object.nextId + 1
    rw [ids] at member
    rcases List.mem_append.mp member with old | newest
    · have bound := consistent.below clientId old
      omega
    · rw [List.mem_singleton.mp newest]
      omega
  · intro fd clientId known
    change clientId < before.object.nextId + 1
    rcases clientOf_of_register known with ⟨_, rfl⟩ | ⟨_, was⟩
    · omega
    · have bound := consistent.given fd clientId was
      omega
  · intro fd clientId known
    change fd ∈ insert connfd before.object.active.fds
    rcases clientOf_of_register known with ⟨same, _⟩ | ⟨_, was⟩
    · exact Finset.mem_insert.mpr (Or.inl same)
    · exact Finset.mem_insert_of_mem (consistent.watched fd clientId was)
  · intro fd clientId known
    rw [fds]
    rcases clientOf_of_register known with ⟨rfl, _⟩ | ⟨_, was⟩
    · exact ⟨large, Finset.mem_insert_self ..⟩
    · obtain ⟨above, opened⟩ := consistent.opened fd clientId was
      exact ⟨above, Finset.mem_insert_of_mem opened⟩
  · change (before.object.clients.insert connfd before.object.nextId).entries.length ≤ NB_CONNECTION
    rw [AList.entries_insert_of_notMem (AList.lookup_eq_none.mp absent), List.length_cons]
    exact room
  · intro closed
    exact absurd (show before.object.socket < 0 by rw [show before.object.socket = -1 from closed]; decide) listening
  · intro started fd member
    change fd ∈ insert connfd before.object.active.fds at member
    change (fd = before.object.socket ∨ _) ∧
      fd ≤ if before.object.maxFd < connfd then connfd else before.object.maxFd
    have earlier : .started ∈ before.log := by simpa using started
    dsimp only
    rw [clientOf_register]
    by_cases same : fd = connfd
    · rw [if_pos same]
      refine ⟨Or.inr rfl, ?_⟩
      split <;> omega
    · rw [if_neg same]
      obtain ⟨known, bound⟩ := consistent.tracked earlier fd (Finset.mem_of_mem_insert_of_ne member same)
      refine ⟨known, ?_⟩
      split <;> omega

theorem Consistent.removed {fd clientId : Int} (consistent : Consistent before)
    (known : before.object.clientOf fd = some clientId) :
    Consistent
      { before with
        object := before.object.forget fd clientId
        log := before.log ++ ((if fd > 2 then [.closed fd] else []) ++ [.removed fd clientId]) } := by
  have owned : fd > 2 := (consistent.opened fd clientId known).1
  have ids : assignedIds (before.log ++ [.closed fd, .removed fd clientId]) = assignedIds before.log :=
    (assignedIds_append ..).trans (List.append_nil _)
  have fds : openFds (before.log ++ [.closed fd, .removed fd clientId]) = (openFds before.log).erase fd :=
    openFds_append ..
  rw [if_pos owned]
  constructor
  · exact inverse_forget consistent.inverse known
  · exact ids.symm ▸ consistent.distinct
  · exact ids.symm ▸ consistent.counted
  · exact ids.symm ▸ consistent.below
  · intro other otherId remains
    exact consistent.given other otherId (clientOf_of_forget remains).2
  · intro other otherId remains
    obtain ⟨different, was⟩ := clientOf_of_forget remains
    change other ∈ (if fd > 2 then before.object.active.clr fd else before.object.active).fds
    rw [if_pos owned]
    exact Finset.mem_erase.mpr ⟨different, consistent.watched other otherId was⟩
  · intro other otherId remains
    obtain ⟨different, was⟩ := clientOf_of_forget remains
    obtain ⟨above, opened⟩ := consistent.opened other otherId was
    exact ⟨above, fds.symm ▸ Finset.mem_erase.mpr ⟨different, opened⟩⟩
  · exact (List.Sublist.length_le (List.kerase_sublist ..)).trans consistent.room
  · intro closed
    have nobody := consistent.idle closed
    rw [clientOf, nobody] at known
    cases known
  · intro started other member
    change other ∈ (if fd > 2 then before.object.active.clr fd else before.object.active).fds at member
    rw [if_pos owned] at member
    obtain ⟨different, member⟩ := Finset.mem_erase.mp member
    have earlier : .started ∈ before.log := by simpa using started
    dsimp only
    rw [clientOf_forget, if_neg different]
    exact consistent.tracked earlier other member

/-- What `stop` writes says nothing about IDs. -/
theorem assignedIds_closing (server : Server) : assignedIds (server.closing ++ [.discarded]) = [] := by
  apply List.filterMap_eq_nil_iff.mpr
  intro event member
  rcases List.mem_append.mp member with closes | last
  · rcases closing_cases closes with ⟨_, rfl⟩ | ⟨_, rfl⟩ <;> rfl
  · rw [List.mem_singleton.mp last]
    rfl

/-- After `stop`, nothing is registered and nothing watched. -/
theorem consistent_of_stopped {world : World Server} (distinct : (assignedIds world.log).Nodup)
    (counted : world.object.nextId = (assignedIds world.log).length)
    (below : ∀ clientId ∈ assignedIds world.log, clientId < world.object.nextId) :
    Consistent (stopped world) := by
  have ids : assignedIds (stopped world).log = assignedIds world.log := by
    rw [stopped, assignedIds_append, assignedIds_closing, List.append_nil]
  have nobody : ∀ fd clientId, (stopped world).object.clientOf fd ≠ some clientId := by
    intro fd clientId known
    cases known
  constructor
  · intro fd clientId
    constructor
    · intro known
      exact absurd known (nobody fd clientId)
    · intro found
      cases found
  · rw [ids]
    exact distinct
  · rw [ids]
    exact counted
  · rw [ids]
    exact below
  · intro fd clientId known
    exact absurd known (nobody fd clientId)
  · intro fd clientId known
    exact absurd known (nobody fd clientId)
  · intro fd clientId known
    exact absurd known (nobody fd clientId)
  · exact Nat.zero_le _
  · intro _
    rfl
  · intro _ fd member
    exact absurd member (Finset.notMem_empty fd)

/-- One step of any call. -/
theorem Consistent.step [Platform] (consistent : Consistent before) (step : Step before after)
    (drained : before.object.Drained) (fresh : Throughout AcceptsFresh after.log) : Consistent after := by
  cases step with
  | quiet same logged =>
    have kept : registers (core after.object) = registers (core before.object) := congrArg registers same
    exact consistent.kept ⟨kept, by rw [logged], by rw [logged], by rw [logged]; exact id⟩
  | noted plain =>
    have unrelated := unrelated_of_plain fun event member => List.mem_singleton.mp member ▸ plain
    exact consistent.kept (unrelated.alike rfl rfl)
  | heard bytes cleared reads ours =>
    exact consistent.kept (Unrelated.alike (by simp [Unrelated, Event.noteFd, Event.assignedId]) rfl rfl)
  | dropped fd => exact consistent.kept ⟨rfl, rfl, rfl, id⟩
  | lost broken => exact absurd drained broken
  | refused connfd text =>
    -- The descriptor was not open before, so closing it leaves no gap.
    obtain ⟨_, _, unused⟩ := fresh before.log (.accepted connfd) _ rfl connfd rfl
    refine consistent.kept ⟨rfl, ?_, ?_, ?_⟩
    · exact (openFds_append ..).trans (Finset.erase_insert unused)
    · exact (assignedIds_append ..).trans (List.append_nil _)
    · intro started
      simpa using started
  | registered connfd selectable listening room =>
    obtain ⟨large, _, unused⟩ := fresh before.log (.accepted connfd) _ rfl connfd rfl
    exact consistent.registered selectable listening room large unused
  | removed fd clientId known => exact consistent.removed known

theorem Consistent.turn [Platform] (consistent : Consistent before) (turn : Turn before after)
    (drained : before.object.Drained) (fresh : Throughout AcceptsFresh after.log) : Consistent after := by
  cases turn with
  | step step => exact consistent.step step drained fresh
  | defined tasks => exact consistent.kept ⟨rfl, rfl, rfl, id⟩
  | invoked found from_ known reads =>
    exact consistent.kept (Unrelated.alike (by simp [Unrelated, Event.noteFd, Event.assignedId]) rfl rfl)
  | discarded =>
    exact consistent.kept (Unrelated.alike (by simp [Unrelated, Event.noteFd, Event.assignedId]) rfl rfl)
  | stopped => exact consistent_of_stopped consistent.distinct consistent.counted consistent.below

/-- A `start` on a server without a socket. -/
theorem Consistent.start (consistent : Consistent before) (exit : StartExit before after)
    (idle : before.object.socket = -1) : Consistent after := by
  have nobody : before.object.clients = ∅ := consistent.idle idle
  have unknown : ∀ fd clientId, before.object.clientOf fd ≠ some clientId := by
    intro fd clientId known
    rw [clientOf, nobody] at known
    cases known
  cases exit with
  | unopened errno => exact consistent.kept ⟨by simp [registers, idle], rfl, rfl, id⟩
  | gaveUp fd maxFd errno active plain =>
    have ids := (unrelated_of_plain plain).assignedIds (before.log ++ [.opened fd])
    rw [assignedIds_append _ [.opened fd], ← List.append_cons] at ids
    replace ids := ids.trans (List.append_nil _)
    apply consistent_of_stopped
    · rw [ids]
      exact consistent.distinct
    · rw [ids]
      exact consistent.counted
    · rw [ids]
      exact consistent.below
  | @listening notes fd errno selectable plain =>
    have ids := (unrelated_of_plain plain).assignedIds (before.log ++ [.opened fd])
    rw [assignedIds_append _ [.opened fd], ← List.append_cons] at ids
    replace ids : assignedIds (before.log ++ (.opened fd :: notes ++ [.started])) = assignedIds before.log := by
      rw [← List.append_assoc, assignedIds_append, ids]
      simp [assignedIds, Event.assignedId]
    constructor
    · exact consistent.inverse
    · rw [ids]
      exact consistent.distinct
    · rw [ids]
      exact consistent.counted
    · rw [ids]
      exact consistent.below
    · exact consistent.given
    · intro other clientId known
      exact absurd known (unknown other clientId)
    · intro other clientId known
      exact absurd known (unknown other clientId)
    · exact consistent.room
    · intro _
      exact nobody
    · intro _ other member
      have same : other = fd := by simpa [FdSet.zero, FdSet.set] using member
      exact ⟨Or.inl same, le_of_eq same⟩

theorem consistent_of_new (address : String) (port : UInt64) (active readyRead : FdSet) (errno : Int) :
    Consistent ⟨.new address port active readyRead, errno, []⟩ where
  inverse fd clientId := by
    constructor
    · intro known
      cases known
    · intro found
      cases found
  distinct := List.nodup_nil
  counted := rfl
  below clientId member := by cases member
  given fd clientId known := by cases known
  watched fd clientId known := by cases known
  opened fd clientId known := by cases known
  room := Nat.zero_le _
  idle _ := rfl
  tracked started := by cases started

/-- In every run whose `start`s are called on a server that does not listen and
whose `accept`s return unused descriptors, the registry is consistent wherever
the caller gets back to. -/
theorem consistent_of_run [Platform] {address : String} {port : UInt64} {active readyRead : FdSet} {errno : Int}
    (run : Run StartsIdle ⟨.new address port active readyRead, errno, []⟩ world) :
    world.object.Drained ∧ (Throughout AcceptsFresh world.log → Consistent world) :=
  run.keeps AcceptsFresh Consistent
    (fun _ _ turn drained fresh consistent => consistent.turn turn drained fresh)
    (fun _ _ script port exit idle _ consistent => consistent.start exit (idle script port rfl))
    (drained_of_none rfl) (consistent_of_new ..)

end Server
end Libftpp
