import Libftpp.ClientRuns
import Libftpp.ServerRegistry

/-! Whose descriptors are whose. Every descriptor the process gets belongs to the
listening socket, to a registered client or to the connection of a `Client` until
it is closed, it is closed once, and nothing that is not open is ever closed. For
the server this needs `start` to be called only while it does not listen, and for
the client that `socket` does not return 0. -/
namespace Libftpp
open Program World

variable {log : List Event}

/-- `socket` returns descriptors that are not open. -/
def OpensFresh (before : List Event) (event : Event) : Prop :=
  ∀ fd, event = .opened fd → 0 ≤ fd ∧ fd ∉ openFds before

/-- What is closed is open. -/
def ClosesOpen (before : List Event) (event : Event) : Prop := ∀ fd, event = .closed fd → fd ∈ openFds before

instance (before : List Event) (event : Event) : Decidable (OpensFresh before event) :=
  match event with
  | .opened fd =>
    decidable_of_iff (0 ≤ fd ∧ fd ∉ openFds before)
      ⟨fun holds other same => by cases same; exact holds, fun holds => holds fd rfl⟩
  | .accepted _ | .closed _ | .bound .. | .connecting .. | .started | .assigned .. | .removed .. | .received ..
  | .queued .. | .dispatching | .invoked .. | .threw | .discarded | .sent .. | .printed _ =>
    isTrue fun _ same => by cases same

/-- Events that close nothing. -/
theorem closesOpen_append {events : List Event} (proper : Throughout ClosesOpen log)
    (none : ∀ fd, .closed fd ∉ events) : Throughout ClosesOpen (log ++ events) :=
  proper.append fun _ member _ fd same => absurd (same ▸ member) (none fd)

/-- Closing different open descriptors one after the other. -/
theorem closes_all {fds : List Int} (proper : Throughout ClosesOpen log) (distinct : fds.Nodup)
    (opened : ∀ fd ∈ fds, fd ∈ openFds log) :
    Throughout ClosesOpen (log ++ fds.map .closed) ∧
      ∀ fd, fd ∈ openFds (log ++ fds.map .closed) ↔ fd ∈ openFds log ∧ fd ∉ fds := by
  induction fds generalizing log with
  | nil => simpa using proper
  | cons first fds ih =>
    obtain ⟨fresh, distinct⟩ := List.nodup_cons.mp distinct
    have closed : openFds (log ++ [.closed first]) = (openFds log).erase first := openFds_append ..
    have shut : Throughout ClosesOpen (log ++ [.closed first]) := by
      apply proper.snoc
      intro fd same
      cases same
      exact opened first (List.mem_cons_self ..)
    obtain ⟨throughout, left⟩ := ih shut distinct fun fd member => by
      rw [closed]
      refine Finset.mem_erase.mpr ⟨?_, opened fd (List.mem_cons_of_mem _ member)⟩
      rintro rfl
      exact fresh member
    rw [List.map_cons, List.append_cons]
    refine ⟨throughout, fun fd => ?_⟩
    rw [left fd, closed, Finset.mem_erase, List.mem_cons, not_or]
    tauto

/-! ### The server -/

namespace Server

/-- What `socket` and `accept` return is not open. -/
def ReturnsFresh (before : List Event) (event : Event) : Prop := AcceptsFresh before event ∧ OpensFresh before event

instance (before : List Event) (event : Event) : Decidable (ReturnsFresh before event) :=
  inferInstanceAs (Decidable (_ ∧ _))

/-- The open descriptors are the listening socket and those of the clients. -/
structure Held (world : World Server) : Prop where
  held : ∀ fd, fd ∈ openFds world.log ↔ fd = world.object.socket ∧ 0 ≤ fd ∨ (world.object.clientOf fd).isSome
  apart : 0 ≤ world.object.socket → world.object.clientOf world.object.socket = none
  large : ∀ fd clientId, world.object.clientOf fd = some clientId → 2 < fd
  proper : Throughout ClosesOpen world.log

theorem mem_keys_iff {server : Server} {fd : Int} : fd ∈ server.clients.keys ↔ (server.clientOf fd).isSome :=
  AList.lookup_isSome.symm

/-- Events that say nothing about descriptors. -/
theorem Held.kept (held : Held before) (socket : after.object.socket = before.object.socket)
    (clients : after.object.clients = before.object.clients) (logged : after.log = before.log ++ events)
    (unrelated : ∀ event ∈ events, ∀ fds, event.noteFd fds = fds) (none : ∀ fd, .closed fd ∉ events) :
    Held after := by
  have known : ∀ fd, after.object.clientOf fd = before.object.clientOf fd := fun fd => by
    rw [clientOf, clientOf, clients]
  have fds : openFds after.log = openFds before.log := by
    rw [logged]
    clear logged
    induction events generalizing before with
    | nil => rw [List.append_nil]
    | cons event events ih =>
      rw [openFds_append, List.foldl_cons, unrelated event (List.mem_cons_self ..), ← openFds_append]
      exact ih held socket clients (fun other member => unrelated other (List.mem_cons_of_mem _ member))
        (fun fd member => none fd (List.mem_cons_of_mem _ member)) known
  constructor
  · intro fd
    rw [fds, socket, known]
    exact held.held fd
  · rw [socket, known]
    exact held.apart
  · intro fd clientId
    rw [known]
    exact held.large fd clientId
  · rw [logged]
    exact closesOpen_append held.proper none

/-- The descriptors `stop` closes, in order. -/
def owned (server : Server) : List Int := (if server.socket ≥ 0 then [server.socket] else []) ++ server.clients.keys

theorem Held.owned_nodup (held : Held world) : world.object.owned.Nodup := by
  unfold owned
  split
  · refine List.nodup_cons.mpr ⟨fun member => ?_, world.object.clients.nodupKeys⟩
    obtain ⟨clientId, known⟩ := Option.isSome_iff_exists.mp (mem_keys_iff.mp member)
    cases (held.apart ‹_›).symm.trans known
  · exact world.object.clients.nodupKeys

theorem Held.mem_owned_iff (held : Held world) (fd : Int) : fd ∈ world.object.owned ↔ fd ∈ openFds world.log := by
  rw [held.held, owned, List.mem_append, mem_keys_iff]
  apply or_congr_left
  split
  · rw [List.mem_singleton]
    exact ⟨fun same => ⟨same, same ▸ ‹_›⟩, And.left⟩
  · constructor
    · intro never
      cases never
    · rintro ⟨rfl, listening⟩
      exact absurd listening ‹_›

/-- What `stop` adds to the log: a line of text if it listens, and the closing of
all descriptors the server has. -/
theorem Held.closing_eq (held : Held world) :
    ∃ text : List Event, world.object.closing = text ++ world.object.owned.map .closed ∧
      ∀ event ∈ text, ∃ line, event = .printed line := by
  have all : world.object.clients.keys.filter (2 < ·) = world.object.clients.keys := by
    apply List.filter_eq_self.mpr
    intro fd member
    obtain ⟨clientId, known⟩ := Option.isSome_iff_exists.mp (mem_keys_iff.mp member)
    exact decide_eq_true (held.large fd clientId known)
  rw [closing, all, owned]
  split
  · exact ⟨[.printed "Closing server socket.\n"], rfl, fun event member => ⟨_, List.mem_singleton.mp member⟩⟩
  · exact ⟨[], rfl, List.forall_mem_nil _⟩

/-- After `stop`, nothing is open. -/
theorem Held.stopped (held : Held world) :
    openFds (stopped world).log = ∅ ∧ Throughout ClosesOpen (stopped world).log := by
  obtain ⟨text, shape, printed⟩ := held.closing_eq
  have same : openFds (world.log ++ text) = openFds world.log := by
    apply (unrelated_of_plain fun event member => ?_).openFds
    obtain ⟨line, rfl⟩ := printed event member
    trivial
  have before : Throughout ClosesOpen (world.log ++ text) := by
    apply closesOpen_append held.proper
    intro fd member
    obtain ⟨line, never⟩ := printed _ member
    cases never
  obtain ⟨proper, left⟩ := closes_all before held.owned_nodup fun fd member => by
    rw [same]
    exact (held.mem_owned_iff fd).mp member
  have log : (Server.stopped world).log = (world.log ++ text ++ world.object.owned.map .closed) ++ [.discarded] := by
    rw [Server.stopped, shape, List.append_assoc, List.append_assoc, List.append_assoc]
  rw [log]
  constructor
  · apply Finset.eq_empty_of_forall_notMem
    intro fd member
    rw [openFds_append] at member
    obtain ⟨opened, others⟩ := (left fd).mp member
    rw [same] at opened
    exact others ((held.mem_owned_iff fd).mpr opened)
  · apply closesOpen_append proper
    simp

theorem held_of_stopped (held : Held world) : Held (Server.stopped world) := by
  obtain ⟨empty, proper⟩ := held.stopped
  have closed : ¬ 0 ≤ (Server.stopped world).object.socket := by
    change ¬ 0 ≤ if world.object.socket ≥ 0 then -1 else world.object.socket
    split <;> omega
  refine ⟨fun fd => ?_, fun listening => absurd listening closed, ?_, proper⟩
  · rw [empty]
    constructor
    · intro member
      exact absurd member (Finset.notMem_empty fd)
    · rintro (⟨rfl, listening⟩ | known)
      · exact absurd listening closed
      · cases known
  · intro fd clientId known
    cases known

section Runs
variable [Platform]

/-- The registry and the descriptors together. -/
structure Accounted (world : World Server) : Prop extends Consistent world, Held world

omit [Platform] in
theorem Held.registered {connfd : Int} (held : Held before) (selectable : Selectable connfd) (large : 2 < connfd)
    (unused : connfd ∉ openFds before.log) :
    Held { before with
      object := before.object.register connfd selectable
      log := before.log ++ [.accepted connfd, .assigned connfd before.object.nextId] } := by
  have fds : openFds (before.log ++ [.accepted connfd, .assigned connfd before.object.nextId]) =
      insert connfd (openFds before.log) := openFds_append ..
  have different : 0 ≤ before.object.socket → before.object.socket ≠ connfd := by
    rintro listening rfl
    exact unused ((held.held _).mpr (Or.inl ⟨rfl, listening⟩))
  constructor
  · intro fd
    rw [fds, Finset.mem_insert, held.held]
    dsimp only
    rw [clientOf_register]
    by_cases same : fd = connfd
    · simp [same]
    · rw [if_neg same]
      exact ⟨fun member => member.resolve_left same, Or.inr⟩
  · intro listening
    change (before.object.register connfd selectable).clientOf before.object.socket = none
    rw [clientOf_register, if_neg (different listening)]
    exact held.apart listening
  · intro fd clientId known
    rcases clientOf_of_register known with ⟨rfl, _⟩ | ⟨_, was⟩
    · exact large
    · exact held.large fd clientId was
  · exact closesOpen_append held.proper (by simp)

omit [Platform] in
theorem Held.removed {fd clientId : Int} (held : Held before)
    (known : before.object.clientOf fd = some clientId) :
    Held { before with
      object := before.object.forget fd clientId
      log := before.log ++ ((if fd > 2 then [.closed fd] else []) ++ [.removed fd clientId]) } := by
  have owned : fd > 2 := held.large fd clientId known
  have open_ : fd ∈ openFds before.log := (held.held fd).mpr (Or.inr (by rw [known]; rfl))
  have fds : openFds (before.log ++ [.closed fd, .removed fd clientId]) = (openFds before.log).erase fd :=
    openFds_append ..
  rw [if_pos owned]
  constructor
  · intro other
    change other ∈ openFds (before.log ++ [.closed fd, .removed fd clientId]) ↔
      other = before.object.socket ∧ 0 ≤ other ∨ ((before.object.forget fd clientId).clientOf other).isSome
    rw [fds, Finset.mem_erase, held.held, clientOf_forget]
    by_cases same : other = fd
    · subst same
      simp only [ne_eq, not_true_eq_false, false_and, ↓reduceIte, Option.isSome_none, Bool.false_eq_true, or_false,
        false_iff, not_and]
      rintro rfl listening
      rw [held.apart listening] at known
      cases known
    · rw [if_neg same]
      exact ⟨fun both => both.2, fun either => ⟨same, either⟩⟩
  · intro listening
    change (before.object.forget fd clientId).clientOf before.object.socket = none
    rw [clientOf_forget, held.apart listening]
    split <;> rfl
  · intro other otherId remains
    exact held.large other otherId (clientOf_of_forget remains).2
  · have closed : Throughout ClosesOpen (before.log ++ [.closed fd]) := by
      apply held.proper.snoc
      intro other same
      cases same
      exact open_
    rw [List.singleton_append, List.append_cons]
    exact closesOpen_append closed (by simp)

theorem Accounted.step (accounted : Accounted before) (step : Step before after)
    (drained : before.object.Drained) (fresh : Throughout ReturnsFresh after.log) : Accounted after := by
  have consistent := accounted.toConsistent.step step drained (fresh.mono fun _ _ => And.left)
  refine ⟨consistent, ?_⟩
  have held := accounted.toHeld
  cases step with
  | quiet same logged =>
    have kept : registers (core after.object) = registers (core before.object) := congrArg registers same
    exact held.kept (congrArg Registers.socket kept) (congrArg Registers.clients kept)
      (logged.trans (List.append_nil _).symm) (by simp) (by simp)
  | noted plain =>
    refine held.kept rfl rfl rfl (fun event member => ?_) fun fd member => ?_
    · rw [List.mem_singleton.mp member]
      exact plain.fds
    · rw [← List.mem_singleton.mp member] at plain
      exact plain
  | heard bytes cleared reads ours =>
    exact held.kept rfl rfl rfl (by simp [Event.noteFd]) (by simp)
  | dropped fd => exact held.kept rfl rfl (List.append_nil _).symm (by simp) (by simp)
  | lost broken => exact absurd drained broken
  | refused connfd text =>
    obtain ⟨⟨_, _, unused⟩, _⟩ := (fresh before.log (.accepted connfd) _ rfl).imp_left fun holds => holds connfd rfl
    have fds : openFds (before.log ++ [.accepted connfd, .printed text, .closed connfd]) = openFds before.log :=
      (openFds_append ..).trans (Finset.erase_insert unused)
    refine ⟨fun fd => by rw [fds]; exact held.held fd, held.apart, held.large, ?_⟩
    have opened : Throughout ClosesOpen (before.log ++ [.accepted connfd, .printed text]) :=
      closesOpen_append held.proper (by simp)
    have open_ : connfd ∈ openFds (before.log ++ [.accepted connfd, .printed text]) := by
      rw [openFds_append]
      exact Finset.mem_insert_self ..
    have closed : Throughout ClosesOpen (before.log ++ [.accepted connfd, .printed text] ++ [.closed connfd]) := by
      apply opened.snoc
      intro fd same
      cases same
      exact open_
    rwa [List.append_assoc] at closed
  | registered connfd selectable listening room =>
    obtain ⟨⟨large, _, unused⟩, _⟩ := (fresh before.log (.accepted connfd) _ rfl).imp_left fun holds => holds connfd rfl
    exact held.registered selectable large unused
  | removed fd clientId known => exact held.removed known

theorem Accounted.turn (accounted : Accounted before) (turn : Turn before after)
    (drained : before.object.Drained) (fresh : Throughout ReturnsFresh after.log) : Accounted after := by
  have consistent := accounted.toConsistent.turn turn drained (fresh.mono fun _ _ => And.left)
  have held := accounted.toHeld
  cases turn with
  | step step => exact accounted.step step drained fresh
  | defined tasks => exact ⟨consistent, held.kept rfl rfl (List.append_nil _).symm (by simp) (by simp)⟩
  | invoked found from_ known reads => exact ⟨consistent, held.kept rfl rfl rfl (by simp [Event.noteFd]) (by simp)⟩
  | discarded => exact ⟨consistent, held.kept rfl rfl rfl (by simp [Event.noteFd]) (by simp)⟩
  | stopped => exact ⟨consistent, held_of_stopped held⟩

omit [Platform] in
/-- A `start` on a server that does not listen: its socket is the only one. -/
theorem Held.opening (held : Held before) (idle : before.object.socket = -1) (nobody : before.object.clients = ∅)
    {fd : Int} (maxFd errno : Int) (active : FdSet) (plain : ∀ event ∈ notes, event.Plain)
    (nonnegative : 0 ≤ fd) :
    Held
      { object := { before.object with socket := fd, maxFd, active }
        errno
        log := before.log ++ .opened fd :: notes } := by
  have unknown : ∀ other, before.object.clientOf other = none := fun other => by
    rw [clientOf, nobody]
    rfl
  have empty : openFds before.log = ∅ := by
    apply Finset.eq_empty_of_forall_notMem
    intro other member
    rcases (held.held other).mp member with ⟨rfl, listening⟩ | known
    · rw [idle] at listening
      exact absurd listening (by decide)
    · rw [unknown] at known
      cases known
  have fds : openFds (before.log ++ .opened fd :: notes) = {fd} := by
    rw [List.append_cons, (unrelated_of_plain plain).openFds, openFds_append, empty]
    rfl
  refine ⟨fun other => ?_, fun _ => unknown fd, fun other clientId known => ?_, ?_⟩
  · rw [fds, Finset.mem_singleton]
    change _ ↔ other = fd ∧ 0 ≤ other ∨ (before.object.clientOf other).isSome
    rw [unknown]
    constructor
    · rintro rfl
      exact Or.inl ⟨rfl, nonnegative⟩
    · rintro (⟨same, _⟩ | never)
      · exact same
      · cases never
  · cases (unknown other).symm.trans known
  · apply closesOpen_append held.proper
    rintro other (_ | ⟨_, member⟩)
    exact plain _ member

omit [Platform] in
theorem Accounted.start (accounted : Accounted before) (exit : StartExit before after)
    (idle : before.object.socket = -1) (fresh : Throughout ReturnsFresh after.log) : Accounted after := by
  have consistent := accounted.toConsistent.start exit idle
  have held := accounted.toHeld
  have nobody := accounted.idle idle
  cases exit with
  | unopened errno => exact ⟨consistent, held.kept idle.symm rfl (List.append_nil _).symm (by simp) (by simp)⟩
  | gaveUp fd maxFd errno active plain =>
    have nonnegative := ((fresh before.log (.opened fd) _ (List.append_assoc ..)).2 fd rfl).1
    exact ⟨consistent, held_of_stopped (held.opening idle nobody maxFd errno active plain nonnegative)⟩
  | @listening notes fd errno selectable plain =>
    refine ⟨consistent, ?_⟩
    have opened := held.opening idle nobody fd errno (FdSet.zero.set fd selectable) plain selectable.1
    exact opened.kept rfl rfl (show _ = _ ++ [Event.started] by simp) (by simp [Event.noteFd]) (by simp)

omit [Platform] in
theorem Accounted.new (address : String) (port : UInt64) (active readyRead : FdSet) (errno : Int) :
    Accounted ⟨.new address port active readyRead, errno, []⟩ where
  toConsistent := consistent_of_new ..
  held fd := by
    constructor
    · intro member
      cases member
    · rintro (⟨rfl, listening⟩ | known)
      · cases listening
      · cases known
  apart _ := rfl
  large fd clientId known := by cases known
  proper := throughout_nil

/-- In every run of a server whose `start`s are called while it does not listen,
the open descriptors are the socket and those of the registered clients, nothing
is closed that is not open, and the destructor closes all that is left. -/
theorem no_descriptor_lost {address : String} {port : UInt64} {active readyRead : FdSet} {errno : Int}
    (run : Run StartsIdle ⟨.new address port active readyRead, errno, []⟩ world)
    (fresh : Throughout ReturnsFresh world.log) :
    (∀ fd, fd ∈ openFds world.log ↔ fd = world.object.socket ∧ 0 ≤ fd ∨ (world.object.clientOf fd).isSome) ∧
      ∃ after, stop.run world = .ok () after ∧ openFds after.log = ∅ ∧ Throughout ClosesOpen after.log := by
  have kept := run.keeps ReturnsFresh Accounted
    (fun before after turn drained fresh accounted => accounted.turn turn drained fresh)
    (fun before after script port exit idle fresh accounted => accounted.start exit (idle script port rfl) fresh)
    (drained_of_none rfl) (.new ..)
  have held := (kept.2 fresh).toHeld
  exact ⟨held.held, stopped world, stop_run world, held.stopped⟩

end Runs

section Witnesses

attribute [local instance] Platform.littleEndian

/-- A server on descriptor 3 with a connection on 5. -/
theorem no_descriptor_lost_after_accept : ∃ world, openFds world.log = {3, 5} ∧
    (∀ fd, fd ∈ openFds world.log ↔ fd = world.object.socket ∧ 0 ≤ fd ∨ (world.object.clientOf fd).isSome) ∧
      ∃ after, stop.run world = .ok () after ∧ openFds after.log = ∅ ∧ Throughout ClosesOpen after.log := by
  have run := (@Run.start _ StartsIdle ⟨.new "" 8080 .zero .zero, 0, []⟩).call
    (.start ⟨.opened 3, none, true, none, none⟩ 0) (fun _ _ _ => rfl)
    (.of_returns (run_exitState (by decide +kernel)))
  replace run := run.call (.accept (.opened 5)) (fun _ _ never => by cases never)
    (.of_returns (run_exitState (by decide +kernel)))
  exact ⟨_, by decide +kernel, no_descriptor_lost run (by decide +kernel)⟩

end Witnesses

end Server

/-! ### The client -/

namespace Client

/-- What `socket` returns is not open, and is not 0. -/
def ReturnsPositive (before : List Event) (event : Event) : Prop :=
  ∀ fd, event = .opened fd → 0 < fd ∧ fd ∉ openFds before

instance (before : List Event) (event : Event) : Decidable (ReturnsPositive before event) :=
  match event with
  | .opened fd =>
    decidable_of_iff (0 < fd ∧ fd ∉ openFds before)
      ⟨fun holds other same => by cases same; exact holds, fun holds => holds fd rfl⟩
  | .accepted _ | .closed _ | .bound .. | .connecting .. | .started | .assigned .. | .removed .. | .received ..
  | .queued .. | .dispatching | .invoked .. | .threw | .discarded | .sent .. | .printed _ =>
    isTrue fun _ same => by cases same

/-- Where a descriptor is opened, no other one is open. -/
def OpensAlone (before : List Event) (event : Event) : Prop := ∀ fd, event = .opened fd → openFds before = ∅

/-- An event that neither opens nor closes a descriptor. -/
def Aloof (event : Event) : Prop := ∀ fds, event.noteFd fds = fds

theorem Aloof.unopened {event : Event} (aloof : Aloof event) (fd : Int) : event ≠ .opened fd := by
  rintro rfl
  have unchanged : insert fd (∅ : Finset Int) = ∅ := aloof ∅
  simp at unchanged

theorem Aloof.unclosed {event : Event} (aloof : Aloof event) (fd : Int) : event ≠ .closed fd := by
  rintro rfl
  have unchanged : ({fd} : Finset Int).erase fd = {fd} := aloof {fd}
  simp at unchanged

/-- One step of a call, seen from the connection. Only a client that has no
connection gets a new one. -/
inductive Handles : World Client → World Client → Prop where
  | kept (same : after.object.fd = before.object.fd)
      (logged : after.log = before.log ∨ ∃ event, Aloof event ∧ after.log = before.log ++ [event]) :
      Handles before after
  | disconnected (before : World Client) : Handles before (disconnected before)
  | opened (idle : before.object.fd = -1) (fd : Int) :
      Handles before
        { before with
          object := { before.object with fd }
          log := before.log ++ [.opened fd] }

/-- The connection is the only descriptor the client has, and always was. -/
structure Holds (world : World Client) : Prop where
  held : openFds world.log = if world.object.fd > 0 then {world.object.fd} else ∅
  proper : Throughout ClosesOpen world.log
  alone : Throughout OpensAlone world.log

theorem Handles.logged (step : Handles before after) : before.log <+: after.log := by
  cases step with
  | kept same logged =>
    rcases logged with unchanged | ⟨event, _, noted⟩
    · rw [unchanged]
    · rw [noted]
      exact List.prefix_append _ _
  | disconnected => exact List.prefix_append _ _
  | opened => exact List.prefix_append _ _

theorem Holds.disconnected (holds : Holds world) : Holds (Client.disconnected world) := by
  have idle : ¬ (Client.disconnected world).object.fd > 0 := by
    change ¬ (-1 : Int) > 0
    decide
  obtain ⟨held, proper, alone⟩ := holds
  by_cases connected : world.object.fd > 0
  · rw [if_pos connected] at held
    have log : (Client.disconnected world).log = world.log ++ [.closed world.object.fd] := by
      rw [Client.disconnected, if_pos connected]
    constructor
    · rw [if_neg idle, log, openFds_append, held]
      exact Finset.erase_singleton _
    · rw [log]
      apply proper.snoc
      intro fd same
      cases same
      rw [held]
      exact Finset.mem_singleton_self _
    · rw [log]
      apply alone.snoc
      intro fd same
      cases same
  · rw [if_neg connected] at held
    have log : (Client.disconnected world).log = world.log := by
      rw [Client.disconnected, if_neg connected, List.append_nil]
    constructor
    · rw [if_neg idle, log, held]
    · rw [log]
      exact proper
    · rw [log]
      exact alone

theorem Holds.step (holds : Holds before) (step : Handles before after)
    (fresh : Throughout ReturnsPositive after.log) : Holds after := by
  cases step with
  | kept same logged =>
    rcases logged with unchanged | ⟨event, aloof, noted⟩
    · constructor
      · rw [unchanged, same]
        exact holds.held
      · rw [unchanged]
        exact holds.proper
      · rw [unchanged]
        exact holds.alone
    · constructor
      · rw [noted, same, openFds_append]
        exact (aloof _).trans holds.held
      · rw [noted]
        apply holds.proper.snoc
        exact fun fd closed => absurd closed (aloof.unclosed fd)
      · rw [noted]
        apply holds.alone.snoc
        exact fun fd opened => absurd opened (aloof.unopened fd)
  | disconnected => exact holds.disconnected
  | opened idle fd =>
    have positive : fd > 0 := (fresh before.log (.opened fd) [] rfl fd rfl).1
    have nothing : openFds before.log = ∅ := by
      rw [holds.held, idle]
      rfl
    constructor
    · rw [if_pos positive, openFds_append, nothing]
      rfl
    · exact closesOpen_append holds.proper (by simp)
    · exact holds.alone.snoc fun _ _ => nothing

theorem holds_of_steps (holds : Holds before) (steps : Relation.ReflTransGen Handles before after)
    (fresh : Throughout ReturnsPositive after.log) : Holds after := by
  induction steps with
  | refl => exact holds
  | tail _ step ih => exact (ih (fresh.before step.logged)).step step fresh

theorem logged_of_steps (steps : Relation.ReflTransGen Handles before after) : before.log <+: after.log := by
  induction steps with
  | refl => exact List.prefix_rfl
  | tail _ step ih => exact ih.trans step.logged

/-! Every call takes such steps. -/

theorem Handles.emit (aloof : ∀ fds, event.noteFd fds = fds) : StepsThrough Handles (World.emit event : Call Client Unit) :=
  .modify fun _ => .kept rfl (Or.inr ⟨event, aloof, rfl⟩)

theorem Handles.setErrno (errno : Int) : StepsThrough Handles (World.setErrno errno : Call Client Unit) :=
  .modify fun _ => .kept rfl (Or.inl rfl)

theorem Handles.alter {change : Client → Client} (same : ∀ client, (change client).fd = client.fd) :
    StepsThrough Handles (World.alter change : Call Client Unit) :=
  .modify fun world => .kept (same world.object) (Or.inl rfl)

theorem Handles.noting {call : Call Client α} (steps : StepsThrough Handles call) :
    StepsThrough Handles (World.noting call) := by
  rintro before after (⟨value, ran⟩ | ⟨error, ran⟩)
  · exact steps _ _ (.of_returns (noting_returns.mp ran))
  · obtain ⟨middle, threw, rfl⟩ := noting_throws.mp ran
    exact (steps _ _ (Or.inr ⟨error, threw⟩)).tail
      (.kept rfl (Or.inr ⟨.threw, fun _ => rfl, rfl⟩))

theorem disconnect_handles : StepsThrough Handles disconnect := by
  rintro before after (⟨_, ran⟩ | ⟨_, ran⟩) <;> cases (disconnect_run before).symm.trans ran
  exact .single (.disconnected before)

theorem receiveChunks_handles (chunks : List (Chunk MAX_READ_BUFFER)) :
    StepsThrough Handles (receiveChunks chunks) := by
  induction chunks with
  | nil => exact .pure _
  | cons chunk chunks ih =>
    apply StepsThrough.bind .get
    intro world
    apply StepsThrough.bind (Handles.emit (fun _ => rfl))
    intro _
    refine StepsThrough.bind ?_ fun _ => ih
    intro before after left
    obtain ⟨pending, _, rfl⟩ := left.zoom
    exact .single (.kept rfl (Or.inl rfl))

section Calls
variable [Platform]

theorem decodeMessages_handles : StepsThrough Handles decodeMessages := by
  apply StepsThrough.bind .get
  intro world
  apply StepsThrough.bind
  · intro before after left
    obtain ⟨inbox, _, rfl⟩ := left.zoom
    exact .single (.kept rfl (Or.inl rfl))
  · intro _
    exact StepsThrough.bind .get fun _ => Handles.emit fun _ => rfl

theorem networkError_handles (errorMsg : String) : StepsThrough Handles (networkError errorMsg) := by
  apply StepsThrough.bind disconnect_handles
  intro _
  exact StepsThrough.bind .get fun _ => .raise _

theorem connect_handles (script : ConnectScript) (address : String) (port : UInt64) :
    StepsThrough Handles (connect script address port) := by
  intro before after left
  replace left := left.past (disconnect_run before)
  refine .head (.disconnected before) ?_
  cases answer : script.socket with
  | failed errno =>
    rw [answer] at left
    replace left := left.past (run_setErrno ..)
    replace left := left.past (run_alter ..)
    have steps := networkError_handles _ _ _ left
    exact .head (by exact .kept rfl (Or.inl rfl)) steps
  | opened fd =>
    rw [answer] at left
    replace left := left.past (run_emit ..)
    replace left := left.past (run_alter ..)
    refine .head (.opened rfl fd) ?_
    rcases left.ite with ⟨_, left⟩ | ⟨_, left⟩
    · exact networkError_handles _ _ _ left
    · refine StepsThrough.bind (Handles.emit (fun _ => rfl)) (fun _ => ?_) _ _ left
      cases script.refused with
      | none => exact .pure ()
      | some errno => exact StepsThrough.bind (Handles.setErrno errno) fun _ => networkError_handles _

theorem send_handles (message : Message) (result : SendResult) : StepsThrough Handles (send message result) := by
  apply StepsThrough.bind (.observe _ _)
  intro data
  apply StepsThrough.bind .get
  intro world
  apply StepsThrough.ite
  · exact fun _ => Handles.setErrno _
  · intro _
    cases result with
    | took count => exact Handles.emit fun _ => rfl
    | failed errno => exact Handles.setErrno errno

theorem receiveMessage_handles (script : RecvScript MAX_READ_BUFFER) :
    StepsThrough Handles (receiveMessage script) := by
  apply StepsThrough.bind (receiveChunks_handles _)
  intro _
  cases script.last with
  | endOfFile => exact disconnect_handles
  | failed errno =>
    apply StepsThrough.bind (Handles.setErrno errno)
    intro _
    apply StepsThrough.ite
    · exact fun _ => .ite (fun _ => disconnect_handles) fun _ => networkError_handles _
    · exact fun _ => decodeMessages_handles

theorem poll_handles (polls : List (RecvScript MAX_READ_BUFFER)) : StepsThrough Handles (poll polls) := by
  induction polls with
  | nil =>
    apply StepsThrough.bind .get
    intro world
    exact .ite (fun _ => .ite (fun _ => .undefinedBehaviour) fun _ => .pure _) fun _ => .pure _
  | cons script polls ih =>
    apply StepsThrough.bind .get
    intro world
    apply StepsThrough.ite
    · intro _
      apply StepsThrough.ite
      · exact fun _ => .undefinedBehaviour
      · exact fun _ => .bind (receiveMessage_handles script) fun _ => ih
    · exact fun _ => .pure _

theorem invoke_handles (reaction : Reaction (Message × SendResult)) (index slot action : Nat) (message : Message) :
    StepsThrough Handles (invoke reaction index slot action message) := by
  apply StepsThrough.bind (Handles.emit (fun _ => rfl))
  intro _
  refine StepsThrough.bind (Handles.alter fun _ => rfl) fun _ => ?_
  apply Handles.noting
  apply StepsThrough.bind
  · exact .forM _ fun reply _ => send_handles reply.1 reply.2
  · intro _
    cases reaction.throws with
    | none => exact .pure ()
    | some what => exact .raise _

theorem invokeAll_handles (react : Nat → Nat → Reaction (Message × SendResult)) (index slot : Nat)
    (actions : List Nat) : StepsThrough Handles (invokeAll react index slot actions) := by
  induction actions generalizing slot with
  | nil => exact .pure _
  | cons action actions ih =>
    apply StepsThrough.bind .get
    intro world
    cases world.object.msgs[index]? with
    | none => exact StepsThrough.bind .undefinedBehaviour fun _ => ih _
    | some message => exact StepsThrough.bind (invoke_handles _ _ _ _ _) fun _ => ih _

theorem dispatchFrom_handles (react : Nat → Nat → Reaction (Message × SendResult)) (index remaining : Nat) :
    StepsThrough Handles (dispatchFrom react index remaining) := by
  induction remaining generalizing index with
  | zero => exact .pure _
  | succ remaining ih =>
    refine StepsThrough.bind ?_ fun _ => ih _
    apply StepsThrough.bind .get
    intro world
    cases world.object.msgs[index]? with
    | none => exact .undefinedBehaviour
    | some message =>
      dsimp only
      cases world.object.triggersOf message.type with
      | none => exact .pure _
      | some actions => exact invokeAll_handles react _ _ _

theorem update_handles (healthy : Bool) (polls : List (RecvScript MAX_READ_BUFFER))
    (react : Nat → Nat → Reaction (Message × SendResult)) : StepsThrough Handles (update healthy polls react) := by
  apply StepsThrough.bind .get
  intro world
  apply StepsThrough.ite
  · exact fun _ => .pure _
  · intro _
    apply StepsThrough.bind (poll_handles polls)
    intro _
    apply StepsThrough.bind (Handles.emit (fun _ => rfl))
    intro _
    apply StepsThrough.bind .get
    intro _
    apply StepsThrough.bind (dispatchFrom_handles react _ _)
    intro _
    exact StepsThrough.bind (Handles.emit (fun _ => rfl)) fun _ => Handles.alter fun _ => rfl

theorem perform_handles (operation : Operation) : StepsThrough Handles (perform operation) := by
  cases operation with
  | connect script address port => exact connect_handles script address port
  | disconnect => exact disconnect_handles
  | defineAction messageType action => exact .modify fun _ => .kept rfl (Or.inl rfl)
  | send message result => exact send_handles message result
  | update healthy polls react => exact update_handles healthy polls react

/-- In every run of a client whose `socket` returns unused descriptors other than 0,
its connection is the only descriptor it has open: nothing is closed that is not
open, a descriptor is opened only while none is, and `disconnect` leaves none. -/
theorem no_connection_lost {operations : List Operation} {errno : Int}
    (ran : (inTurn (operations.map perform)).run ⟨.new, errno, []⟩ = .ok () world)
    (fresh : Throughout ReturnsPositive world.log) :
    openFds world.log = (if world.object.fd > 0 then {world.object.fd} else ∅) ∧
      Throughout ClosesOpen world.log ∧ Throughout OpensAlone world.log ∧
      ∃ after, disconnect.run world = .ok () after ∧ openFds after.log = ∅ ∧ Throughout ClosesOpen after.log := by
  have start : Holds ⟨.new, errno, []⟩ := ⟨rfl, throughout_nil, throughout_nil⟩
  have keeps : ∀ operation before after, (Throughout ReturnsPositive (World.log before) → Holds before) →
      Leaves (perform operation) before after → Throughout ReturnsPositive after.log → Holds after := by
    intro operation before after holds left fresh
    have steps := perform_handles operation _ _ left
    exact holds_of_steps (holds (fresh.before (logged_of_steps steps))) steps fresh
  have holds := inTurn_keeps keeps (fun _ => start) ran fresh
  exact ⟨holds.held, holds.proper, holds.alone, _, disconnect_run world, holds.disconnected.held,
    holds.disconnected.proper⟩

end Calls

section Witnesses

attribute [local instance] Platform.littleEndian

/-- A client that connects on 3, is refused on 4, and connects on 3 again. -/
theorem no_connection_lost_after_refusal : ∃ world : World Client, world.object.fd = 3 ∧
    openFds world.log = (if world.object.fd > 0 then {world.object.fd} else ∅) ∧
      Throughout ClosesOpen world.log ∧ Throughout OpensAlone world.log ∧
      ∃ after, disconnect.run world = .ok () after ∧ openFds after.log = ∅ ∧ Throughout ClosesOpen after.log := by
  have ran : (inTurn ([Operation.connect ⟨.opened 3, true, none⟩ "" 80, .connect ⟨.opened 4, true, some 111⟩ "" 80,
      .connect ⟨.opened 3, true, none⟩ "" 80].map perform)).run ⟨.new, 0, []⟩ = .ok () _ :=
    run_exitState (by decide +kernel)
  exact ⟨_, by decide +kernel, no_connection_lost ran (by decide +kernel)⟩

end Witnesses

end Client

end Libftpp
