import Libftpp.History
import Libftpp.ServerReception

/-! What the calls of a server do, step by step. A step is the smallest change
that any part of the server is ever left with: a connection entered or taken
out, bytes put into a partial message, messages queued, one action invoked, all
of it cleared. What a step keeps, every run of public calls keeps. -/
namespace Libftpp
open Program World

/-- Events that neither concern a descriptor or an ID nor the queue. -/
def Event.Plain : Event → Prop
  | .sent .. | .printed .. | .bound .. | .dispatching | .threw => True
  | _ => False

theorem Event.Plain.beside {event : Event} (plain : event.Plain) : event.Beside := by
  intro books
  cases event <;> first | exact plain.elim | exact ⟨_, rfl, id⟩ | exact ⟨true, rfl, nofun⟩

namespace Server

/-- The server but for its flags and its address. -/
def core (server : Server) : Server :=
  { server with running := true, readyRead := .zero, address := "", port := 0 }

/-- Between two receptions no partial message holds anything. -/
def Drained (server : Server) : Prop := ∀ fd, server.Blank fd

theorem Drained.insert {server : Server} (drained : server.Drained) {pending : Message}
    (blank : pending.buffer = .empty) (fd : Int) (msgs : List Message) :
    Drained { server with partialMsgs := server.partialMsgs.insert fd pending, msgs } := by
  intro other
  by_cases same : other = fd
  · subst same
    rw [Blank, partialOf_insert]
    exact blank
  · rw [Blank, partialOf, AList.lookup_insert_ne same]
    exact drained other

theorem Drained.erase {server : Server} (drained : server.Drained) (fd : Int) :
    Drained { server with partialMsgs := server.partialMsgs.erase fd } := by
  intro other
  by_cases same : other = fd
  · subst same
    exact blank_of_absent (AList.lookup_erase ..)
  · rw [Blank, partialOf, AList.lookup_erase_ne same]
    exact drained other

theorem drained_of_none {server : Server} (nothing : server.partialMsgs = ∅) : server.Drained := by
  intro fd
  apply blank_of_absent
  rw [nothing, AList.lookup_empty]

/-- What `stop` writes to the log before it empties the queue. -/
def closing (server : Server) : List Event :=
  (if server.socket ≥ 0 then [.printed "Closing server socket.\n", .closed server.socket] else []) ++
    (server.clients.keys.filter (2 < ·)).map .closed

theorem closing_cases {server : Server} (member : event ∈ server.closing) :
    (∃ text, event = .printed text) ∨ ∃ fd, event = .closed fd := by
  rcases List.mem_append.mp member with socket | client
  · split at socket
    · rcases List.mem_pair.mp socket with rfl | rfl
      · exact Or.inl ⟨_, rfl⟩
      · exact Or.inr ⟨_, rfl⟩
    · cases socket
  · obtain ⟨fd, _, rfl⟩ := List.mem_map.mp client
    exact Or.inr ⟨_, rfl⟩

/-- To the account of messages, `stop` is the emptying of the queue. -/
theorem ledger_closing (server : Server) (log : List Event) :
    ledger (log ++ (server.closing ++ [.discarded])) = (ledger log).note .discarded := by
  have beside : ∀ event ∈ server.closing, event.Beside := by
    intro event member
    rcases closing_cases member with ⟨_, rfl⟩ | ⟨_, rfl⟩ <;> simp
  obtain ⟨interrupted, books, _⟩ := ledger_beside beside log
  rw [← List.append_assoc, ledger_snoc, books]
  rfl

/-- To the account of messages, hearing bytes is queuing what they say. -/
theorem ledger_heard (log : List Event) (fd : Int) (bytes : List UInt8) (fresh : List Message) :
    ledger (log ++ [.received fd bytes, .queued fd fresh]) = (ledger log).note (.queued fd fresh) := by
  rw [List.append_cons, ledger_snoc, ledger_snoc]
  rfl

/-- What `_clearClient` leaves where it comes to its end. -/
def forget (server : Server) (fd clientId : Int) : Server := (server.unregister fd clientId).dropPartial fd

/-- What `stop` leaves. -/
def stopped (world : World Server) : World Server :=
  { world with
    object := { world.object with
      running := false
      socket := if world.object.socket ≥ 0 then -1 else world.object.socket
      clients := ∅
      clientsToFd := ∅
      partialMsgs := ∅
      msgs := []
      active := .zero }
    log := world.log ++ (world.object.closing ++ [.discarded]) }

section Steps
variable [Platform]

/-- One step of reception or sending. A partial message that holds something
already would allow anything. -/
inductive Step : World Server → World Server → Prop where
  | quiet (same : core after.object = core before.object) (logged : after.log = before.log) :
      Step before after
  | noted (plain : event.Plain) : Step before { before with log := before.log ++ [event] }
  | heard (bytes : List UInt8) (cleared : pending.buffer = .empty)
      (reads : Inbox.extractBytes (bytes.length + 1) bytes = .ok (fresh.map Message.packet, left))
      (ours : ∀ message ∈ fresh, message.fd = some fd ∧ message.Untouched) :
      Step before
        { before with
          object := { before.object with
            partialMsgs := before.object.partialMsgs.insert fd pending
            msgs := before.object.msgs ++ fresh }
          log := before.log ++ [.received fd bytes, .queued fd fresh] }
  | dropped (fd : Int) :
      Step before { before with object := { before.object with
        partialMsgs := before.object.partialMsgs.erase fd } }
  | lost (broken : ¬ before.object.Drained) : Step before after
  | refused (connfd : Int) (text : String) :
      Step before { before with log := before.log ++ [.accepted connfd, .printed text, .closed connfd] }
  | registered (connfd : Int) (selectable : Selectable connfd) (listening : ¬ before.object.socket < 0)
      (room : before.object.clients.entries.length < NB_CONNECTION) :
      Step before
        { before with
          object := before.object.register connfd selectable
          log := before.log ++ [.accepted connfd, .assigned connfd before.object.nextId] }
  | removed (fd clientId : Int) (known : before.object.clientOf fd = some clientId) :
      Step before
        { before with
          object := before.object.forget fd clientId
          log := before.log ++ ((if fd > 2 then [.closed fd] else []) ++ [.removed fd clientId]) }

/-- One step of any call but `start`: such a step, or one of those that concern
the actions and the queue as a whole. -/
inductive Turn : World Server → World Server → Prop where
  | step (step : Step before after) : Turn before after
  | defined (tasks) : Turn before { before with object := { before.object with tasks } }
  | invoked (found : before.object.msgs[index]? = some message) (from_ : message.fd = some fd)
      (known : before.object.clientOf fd = some clientId) (reads : Nat) :
      Turn before
        { before with
          object := { before.object with msgs := before.object.msgs.set index (message.readBy reads) }
          log := before.log ++ [.invoked index 0 action (some clientId) message] }
  | discarded :
      Turn before
        { before with object := { before.object with msgs := [] }, log := before.log ++ [.discarded] }
  | stopped : Turn before (stopped before)

/-- No step leaves anything in a partial message. -/
theorem Step.drained (step : Step before after) (drained : before.object.Drained) : after.object.Drained := by
  cases step with
  | quiet same logged =>
    have kept : (core after.object).partialMsgs = (core before.object).partialMsgs := by rw [same]
    intro fd
    rw [Blank, partialOf, show after.object.partialMsgs = before.object.partialMsgs from kept]
    exact drained fd
  | noted plain => exact drained
  | heard bytes cleared reads ours => exact drained.insert cleared _ _
  | dropped fd => exact drained.erase fd
  | lost broken => exact absurd drained broken
  | refused connfd text => exact drained
  | registered connfd selectable listening room => exact drained
  | removed fd clientId known => exact drained.erase fd

theorem Turn.drained (turn : Turn before after) (drained : before.object.Drained) : after.object.Drained := by
  cases turn with
  | step step => exact step.drained drained
  | stopped => exact drained_of_none rfl
  | _ => exact drained

/-- No step takes anything back from the log. -/
theorem Step.logged (step : Step before after) (drained : before.object.Drained) : before.log <+: after.log := by
  cases step with
  | quiet same logged => rw [logged]
  | dropped fd => exact List.prefix_rfl
  | lost broken => exact absurd drained broken
  | _ => exact List.prefix_append _ _

theorem Turn.logged (turn : Turn before after) (drained : before.object.Drained) : before.log <+: after.log := by
  cases turn with
  | step step => exact step.logged drained
  | defined tasks => exact List.prefix_rfl
  | _ => exact List.prefix_append _ _

theorem turns_drained (turns : Relation.ReflTransGen Turn before after) (drained : before.object.Drained) :
    after.object.Drained := by
  induction turns with
  | refl => exact drained
  | tail _ turn ih => exact turn.drained ih

theorem Step.emit (plain : event.Plain) : StepsThrough Step (emit event) :=
  .modify fun _ => .noted plain

theorem Step.setErrno (errno : Int) : StepsThrough Step (setErrno errno) :=
  .modify fun _ => .quiet rfl rfl

theorem Step.alter {change : Server → Server} (same : ∀ server, core (change server) = core server) :
    StepsThrough Step (alter change) :=
  .modify fun world => .quiet (same world.object) rfl

/-- An exception that gets out is noted. -/
theorem Step.noting {call : Call Server α} (steps : StepsThrough Step call) : StepsThrough Step (noting call) := by
  rintro before after (⟨value, ran⟩ | ⟨error, ran⟩)
  · exact steps before after (.of_returns (noting_returns.mp ran))
  · obtain ⟨middle, threw, rfl⟩ := noting_throws.mp ran
    exact (steps before middle (Or.inr ⟨error, threw⟩)).tail (.noted trivial)

theorem Step.turns {call : Call Server α} (steps : StepsThrough Step call) : StepsThrough Turn call :=
  steps.mono fun _ _ => .step

/-! ### Connections -/

/-- Whatever `_acceptNewConnection` does with a new descriptor is one step. -/
theorem acceptNewConnection_steps (result : OpenResult) : StepsThrough Step (acceptNewConnection result) := by
  intro before after left
  replace left := left.past (EStateM.run_get ..)
  rcases left.ite with ⟨_, left⟩ | ⟨listening, left⟩
  · exact Step.setErrno _ before after left
  cases result with
  | failed errno => exact Step.setErrno _ before after left
  | opened connfd =>
    replace left := left.past (run_emit ..)
    rcases left.ite with ⟨_, left⟩ | ⟨room, left⟩
    · replace left := left.past (run_emit ..)
      rcases left with ⟨_, ran⟩ | ⟨_, ran⟩ <;> cases ran
      have refused := @Step.refused _ before connfd "Max connections reached, closing new connection\n"
      simpa using Relation.ReflTransGen.single refused
    · by_cases selectable : Selectable connfd
      · rw [dif_pos selectable] at left
        rcases left.ite with ⟨_, left⟩ | ⟨_, left⟩
        · exact left.undefined.elim
        · replace left := left.past (run_emit ..)
          rcases left with ⟨_, ran⟩ | ⟨_, ran⟩ <;> cases ran
          have entered := Step.registered connfd selectable listening (Nat.lt_of_not_le room)
          simpa using Relation.ReflTransGen.single entered
      · rw [dif_neg selectable] at left
        exact left.undefined.elim

omit [Platform] in
@[simp] theorem fdOf_unregister (server : Server) (fd clientId other : Int) :
    (server.unregister fd clientId).fdOf other = if other = clientId then none else server.fdOf other := by
  by_cases same : other = clientId
  · subst same
    simp [fdOf, unregister]
  · simp [fdOf, unregister, AList.lookup_erase_ne same, same]

/-- The world in which `_clearClient` has taken the client out of the registry. -/
def unregistered (world : World Server) (fd clientId : Int) : World Server :=
  { world with
    object := world.object.unregister fd clientId
    log := world.log ++ ((if fd > 2 then [.closed fd] else []) ++ [.removed fd clientId]) }

/-- The world it leaves if it comes to its end. -/
def cleared (world : World Server) (fd clientId : Int) : World Server :=
  { unregistered world fd clientId with object := world.object.forget fd clientId }

omit [Platform] in
/-- Up to there nothing can go wrong; what is left is to read the reference again. -/
theorem clearClient_run {ref : FdRef} {fd clientId : Int} {world : World Server}
    (reads : (readFd ref).run world = .ok fd world) (known : world.object.clientOf fd = some clientId) :
    (clearClient ref).run world = (do
      let again ← readFd ref
      alter fun server => server.dropPartial again : Call Server Unit).run (unregistered world fd clientId) := by
  rw [clearClient, EStateM.run_bind, reads]
  simp only [EStateM.run_bind, EStateM.run_get, known]
  by_cases owned : fd > 2 <;> simp [owned, unregistered]

omit [Platform] in
theorem readFd_entry {world : World Server} (listed : world.object.fdOf clientId = some fd) :
    (readFd (.entry clientId)).run world = .ok fd world := by
  rw [readFd, EStateM.run_bind, EStateM.run_get]
  simp only [listed]
  rfl

omit [Platform] in
theorem readFd_erased {world : World Server} (erased : world.object.fdOf clientId = none) :
    (readFd (.entry clientId)).run world = .error .undefined world := by
  rw [readFd, EStateM.run_bind, EStateM.run_get]
  simp only [erased]
  rfl

omit [Platform] in
/-- A reference into the very entry that is erased does not outlive it. -/
theorem clearClient_dangles {fd clientId : Int} {world : World Server} (listed : world.object.fdOf clientId = some fd)
    (known : world.object.clientOf fd = some clientId) :
    (clearClient (.entry clientId)).run world = .error .undefined (unregistered world fd clientId) := by
  have erased : (unregistered world fd clientId).object.fdOf clientId = none := by simp [unregistered]
  rw [clearClient_run (readFd_entry listed) known, EStateM.run_bind, readFd_erased erased]

omit [Platform] in
/-- If it does, the client is gone and its partial message with it. -/
theorem clearClient_clears {ref : FdRef} {fd clientId : Int} {world : World Server}
    (reads : ∀ middle : World Server, middle = world ∨ middle = unregistered world fd clientId →
      (readFd ref).run middle = .ok fd middle)
    (known : world.object.clientOf fd = some clientId) :
    (clearClient ref).run world = .ok () (cleared world fd clientId) := by
  rw [clearClient_run (reads _ (Or.inl rfl)) known, EStateM.run_bind, reads _ (Or.inr rfl)]
  rfl

omit [Platform] in
/-- A call that can be gone on from has taken out one client, or has found none. -/
theorem clearClient_leaves {ref : FdRef} {before after : World Server} (left : Leaves (clearClient ref) before after) :
    after = before ∨ ∃ fd clientId, before.object.clientOf fd = some clientId ∧ after = cleared before fd clientId := by
  have nobody : ∀ fd, (readFd ref).run before = .ok fd before → before.object.clientOf fd = none → after = before := by
    intro fd reads unknown
    replace left := (left.past reads).past (EStateM.run_get ..)
    simp only [unknown] at left
    rcases left with ⟨_, ran⟩ | ⟨_, ran⟩ <;> cases ran
    rfl
  have somebody : ∀ fd clientId, (∀ middle : World Server, middle = before ∨ middle = unregistered before fd clientId →
      (readFd ref).run middle = .ok fd middle) → before.object.clientOf fd = some clientId →
        after = cleared before fd clientId := by
    intro fd clientId reads known
    rcases left with ⟨_, ran⟩ | ⟨_, ran⟩ <;> cases (clearClient_clears reads known).symm.trans ran
    rfl
  cases ref with
  | value fd =>
    cases known : before.object.clientOf fd with
    | none => exact Or.inl (nobody fd rfl known)
    | some clientId => exact Or.inr ⟨fd, clientId, known, somebody fd clientId (fun _ _ => rfl) known⟩
  | entry other =>
    cases listed : before.object.fdOf other with
    | none =>
      rcases left with ⟨_, ran⟩ | ⟨_, ran⟩ <;> simp [clearClient, readFd_erased listed] at ran
    | some fd =>
      cases known : before.object.clientOf fd with
      | none => exact Or.inl (nobody fd (readFd_entry listed) known)
      | some clientId =>
        -- Only a reference into another entry can be read again.
        by_cases same : other = clientId
        · subst same
          rcases left with ⟨_, ran⟩ | ⟨_, ran⟩ <;> cases (clearClient_dangles listed known).symm.trans ran
        · have stays : (unregistered before fd clientId).object.fdOf other = some fd := by
            simp [unregistered, same, listed]
          refine Or.inr ⟨fd, clientId, known, somebody fd clientId ?_ known⟩
          rintro _ (rfl | rfl)
          · exact readFd_entry listed
          · exact readFd_entry stays

/-- Taking a client out is one step. -/
theorem clearClient_steps (ref : FdRef) : StepsThrough Step (clearClient ref) := by
  intro before after left
  rcases clearClient_leaves left with rfl | ⟨fd, clientId, known, rfl⟩
  · exact .refl
  · exact .single (.removed fd clientId known)

omit [Platform] in
theorem closeClients_run (fds : List Int) (world : World Server) :
    ∃ active, (closeClients fds).run world = .ok ()
      { world with
        object := { world.object with active }
        log := world.log ++ (fds.filter (2 < ·)).map .closed } := by
  induction fds generalizing world with
  | nil => exact ⟨world.object.active, by simp [closeClients]⟩
  | cons fd fds ih =>
    by_cases kept : fd ≤ 2
    · obtain ⟨active, ran⟩ := ih world
      have skipped : ¬ 2 < fd := by omega
      rw [List.filter_cons_of_neg (by simpa using skipped)]
      exact ⟨active, bind_returns.mpr ⟨(), world, by rw [run_ite, if_pos kept]; rfl, ran⟩⟩
    · obtain ⟨active, ran⟩ := ih { world with
        object := { world.object with active := world.object.active.clr fd }
        log := world.log ++ [.closed fd] }
      have closes : 2 < fd := by omega
      rw [List.filter_cons_of_pos (by simpa using closes), List.map_cons, List.append_cons]
      exact ⟨active, bind_returns.mpr ⟨(), _, by rw [run_ite, if_neg kept]; rfl, ran⟩⟩

omit [Platform] in
theorem closeSocket_run (world : World Server) : closeSocket.run world = .ok ()
    { world with
      object := { world.object with socket := if world.object.socket ≥ 0 then -1 else world.object.socket }
      log := world.log ++ if world.object.socket ≥ 0
        then [.printed "Closing server socket.\n", .closed world.object.socket] else [] } := by
  rw [closeSocket, EStateM.run_bind, EStateM.run_get]
  by_cases opened : world.object.socket ≥ 0 <;> simp [opened]

omit [Platform] in
/-- What `stop` does, it does in any state. -/
theorem stop_run (world : World Server) : stop.run world = .ok () (stopped world) := by
  obtain ⟨active, ran⟩ := closeClients_run world.object.clients.keys
    { world with
      object := { world.object with
        running := false
        socket := if world.object.socket ≥ 0 then -1 else world.object.socket }
      log := world.log ++ if world.object.socket ≥ 0
        then [.printed "Closing server socket.\n", .closed world.object.socket] else [] }
  rw [stop]
  simp only [EStateM.run_bind, run_alter, closeSocket_run, EStateM.run_get, ran, clearAll, run_emit, stopped,
    closing, List.append_assoc]

theorem stop_turns : StepsThrough Turn stop := by
  rintro before after (⟨_, ran⟩ | ⟨_, ran⟩) <;> rw [stop_run] at ran <;> cases ran
  exact .single .stopped

theorem defineAction_turns (messageType : Int32) (action : Nat) :
    StepsThrough Turn (defineAction messageType action) := .modify fun _ => .defined _

/-! ### Reception -/

/-- A chunk is decoded and forgotten in one step. -/
theorem receiveChunk_steps (fd : Int) (chunk : Chunk READ_BUFFER_SIZE) :
    StepsThrough Step (receiveChunk fd chunk) := by
  intro before after left
  by_cases blank : before.object.Blank fd
  · cases reads : Inbox.extractBytes (chunk.bytes.length + 1) chunk.bytes with
    | ok result =>
      obtain ⟨packets, rest⟩ := result
      obtain ⟨pending, fresh, ran, cleared, rfl, ours⟩ := receiveChunk_returns blank reads
      rcases left with ⟨_, again⟩ | ⟨_, again⟩ <;> cases ran.symm.trans again
      exact .single (.heard chunk.bytes cleared reads ours)
    | error halt =>
      obtain ⟨_, stopped⟩ := receiveChunk_fails blank reads
      rcases left with ⟨_, again⟩ | ⟨_, again⟩ <;> cases stopped.symm.trans again
      rcases Inbox.extractBytes_error reads with never | never <;> cases never
  · exact .single (.lost fun drained => blank (drained fd))

theorem receiveClientMsg_steps (fd : Int) (script : RecvScript READ_BUFFER_SIZE) :
    StepsThrough Step (receiveClientMsg fd script) := by
  apply StepsThrough.bind .get
  intro world
  apply StepsThrough.ite
  · exact fun _ => .undefinedBehaviour
  intro _
  apply StepsThrough.ite
  · exact fun _ => .pure _
  intro _
  apply StepsThrough.bind (.forM _ fun chunk _ => receiveChunk_steps fd chunk)
  intro _
  cases script.last with
  | endOfFile => exact .pure _
  | failed errno => exact StepsThrough.bind (Step.setErrno errno) fun _ => .pure _

/-! ### Sending -/

/-- What a `sendTo` does, in steps of any kind that allows its parts. -/
theorem sendTo_through {step : World Server → World Server → Prop}
    (fails : ∀ errno, StepsThrough step (setErrno errno))
    (sends : ∀ fd bytes, StepsThrough step (emit (.sent fd bytes)))
    (prints : ∀ text, StepsThrough step (emit (.printed text)))
    (clears : ∀ ref, StepsThrough step (clearClient ref))
    (message : Message) (clientId : Int) (result : SendResult) :
    StepsThrough step (sendTo message clientId result) := by
  apply StepsThrough.bind .get
  intro world
  cases world.object.fdOf clientId with
  | none => exact .pure ()
  | some fd =>
    apply StepsThrough.ite
    · exact fun _ => .undefinedBehaviour
    intro _
    apply StepsThrough.ite
    · exact fun _ => .pure ()
    intro _
    apply StepsThrough.bind (.observe _ _)
    intro data
    apply StepsThrough.ite
    · exact fun _ => .pure ()
    intro _
    cases result with
    | took count => exact sends fd _
    | failed errno =>
      apply StepsThrough.bind (fails errno)
      intro _
      exact StepsThrough.bind (clears _) fun _ => prints _

/-- So it is with everything an action sends. -/
theorem act_through {step : World Server → World Server → Prop}
    (sends : ∀ message clientId result, StepsThrough step (sendTo message clientId result))
    (reaction : Reaction Reply) : StepsThrough step (act reaction) := by
  apply StepsThrough.bind
  · exact .forM _ fun reply _ => sends reply.message reply.clientId reply.result
  · intro _
    cases reaction.throws with
    | none => exact .pure ()
    | some what => exact .raise _

theorem sendTo_steps (message : Message) (clientId : Int) (result : SendResult) :
    StepsThrough Step (sendTo message clientId result) :=
  sendTo_through Step.setErrno (fun _ _ => Step.emit trivial) (fun _ => Step.emit trivial) clearClient_steps
    message clientId result

theorem sendToArray_steps (message : Message) (clientIds : List (Int × SendResult)) :
    StepsThrough Step (sendToArray message clientIds) :=
  .forM _ fun (clientId, result) _ => sendTo_steps message clientId result

/-! ### The update loop -/

theorem serve_steps (round : Round) (fd : Int) : StepsThrough Step (serve round fd) := by
  apply StepsThrough.bind .get
  intro world
  apply StepsThrough.ite
  · exact fun _ => acceptNewConnection_steps _
  intro _
  apply StepsThrough.bind (receiveClientMsg_steps fd _)
  intro connected
  apply StepsThrough.ite
  · exact fun _ => .pure ()
  intro _
  apply StepsThrough.bind (clearClient_steps _)
  intro _
  exact .modify fun world => .dropped fd

theorem visit_steps (round : Round) (fd : Int) : StepsThrough Step (visit round fd) := by
  apply StepsThrough.bind .get
  intro world
  apply StepsThrough.ite
  · exact fun _ => .pure ()
  intro _
  apply StepsThrough.bind (serve_steps round fd)
  intro _
  cases round.aside fd with
  | none => exact .pure ()
  | some errno => exact Step.setErrno errno

theorem scanFrom_steps (round : Round) (fd remaining : Nat) :
    StepsThrough Step (scanFrom round fd remaining) := by
  induction remaining generalizing fd with
  | zero =>
    apply StepsThrough.bind .get
    intro world
    exact .ite (fun _ => .undefinedBehaviour) fun _ => .pure ()
  | succ remaining ih =>
    apply StepsThrough.bind .get
    intro world
    apply StepsThrough.ite
    · exact fun _ => .bind (visit_steps round fd) fun _ => ih (fd + 1)
    · exact fun _ => .pure ()

theorem selectLoop_steps (last : SelectEnd) (rounds : List Round) :
    StepsThrough Step (selectLoop last rounds) := by
  induction rounds with
  | nil =>
    apply StepsThrough.bind
    · exact Step.alter fun _ => rfl
    intro _
    have ending : StepsThrough Step (do
        let world ← get
        if world.errno = EBADF ∨ world.errno = EINTR then
          emit (.printed "Select interrupted, stopping server...\n")
          pure false
        else
          alter fun server => { server with running := false }
          pure true : Call Server Bool) := by
      apply StepsThrough.bind .get
      intro world
      apply StepsThrough.ite
      · exact fun _ => .bind (Step.emit trivial) fun _ => .pure _
      · exact fun _ => .bind (Step.alter fun _ => rfl) fun _ => .pure _
    cases last with
    | timeout => exact ending
    | failed errno => exact .bind (Step.setErrno errno) fun _ => ending
  | cons round rounds ih =>
    apply StepsThrough.bind
    · exact Step.alter fun _ => rfl
    intro _
    exact .bind (scanFrom_steps round 0 _) fun _ => ih

theorem act_steps (reaction : Reaction Reply) : StepsThrough Step (act reaction) := act_through sendTo_steps reaction

theorem dispatchMessage_turns (react : Nat → Reaction Reply) (index : Nat) :
    StepsThrough Turn (dispatchMessage react index) := by
  intro before after left
  replace left := left.past (EStateM.run_get ..)
  cases found : before.object.msgs[index]? with
  | none =>
    simp only [found] at left
    exact left.undefined.elim
  | some message =>
    simp only [found] at left
    cases handled : before.object.taskOf message.type with
    | none =>
      simp only [handled] at left
      exact StepsThrough.pure () before after left
    | some action =>
      simp only [handled] at left
      cases from_ : message.fd with
      | none =>
        simp only [from_] at left
        exact left.undefined.elim
      | some fd =>
        simp only [from_] at left
        cases known : before.object.clientOf fd with
        | none =>
          simp only [known] at left
          exact StepsThrough.pure () before after left
        | some clientId =>
          simp only [known] at left
          replace left := (left.past (run_emit ..)).past (run_alter ..)
          have handed := @Turn.invoked _ _ _ _ _ _ action found from_ known (react index).reads
          exact .head handed (Step.turns (Step.noting (act_steps _)) _ _ left)

theorem dispatchFrom_turns (react : Nat → Reaction Reply) (index remaining : Nat) :
    StepsThrough Turn (dispatchFrom react index remaining) := by
  induction remaining generalizing index with
  | zero => exact .pure ()
  | succ remaining ih => exact .bind (dispatchMessage_turns react index) fun _ => ih (index + 1)

theorem dispatch_turns (react : Nat → Reaction Reply) : StepsThrough Turn (dispatch react) := by
  apply StepsThrough.bind
  · apply Step.turns
    exact Step.emit trivial
  intro _
  apply StepsThrough.bind .get
  intro world
  apply StepsThrough.bind (dispatchFrom_turns react 0 _)
  intro _ before after left
  replace left := left.past (run_emit ..)
  rcases left with ⟨_, ran⟩ | ⟨_, ran⟩ <;> cases ran
  exact .single .discarded

theorem update_turns (rounds : List Round) (last : SelectEnd) (react : Nat → Reaction Reply) :
    StepsThrough Turn (update rounds last react) := by
  apply StepsThrough.bind
  · apply Step.turns
    exact Step.alter fun _ => rfl
  intro _
  apply StepsThrough.bind (Step.turns (selectLoop_steps last rounds))
  intro ended
  apply StepsThrough.ite
  · exact fun _ => dispatch_turns react
  · exact fun _ => .pure ()

/-! ### Starting -/

/-- How `start` is left: without a socket, stopped again, or listening. -/
inductive StartExit (before : World Server) : World Server → Prop where
  | unopened (errno : Int) :
      StartExit before { before with object := { before.object with socket := -1 }, errno }
  | gaveUp (fd maxFd errno : Int) (active : FdSet) (plain : ∀ event ∈ notes, event.Plain) :
      StartExit before (stopped
        { object := { before.object with socket := fd, maxFd, active }
          errno
          log := before.log ++ .opened fd :: notes })
  | listening (fd errno : Int) (selectable : Selectable fd) (plain : ∀ event ∈ notes, event.Plain) :
      StartExit before
        { object := { before.object with
            socket := fd
            maxFd := fd
            active := FdSet.zero.set fd selectable }
          errno
          log := before.log ++ (.opened fd :: notes ++ [.started]) }

omit [Platform] in
theorem beside_opening {notes : List Event} (fd : Int) (plain : ∀ event ∈ notes, event.Plain) :
    ∀ event ∈ Event.opened fd :: notes, event.Beside := by
  rintro event (_ | ⟨_, member⟩)
  · simp
  · exact (plain event member).beside

omit [Platform] in
theorem beside_listening {notes : List Event} (fd : Int) (plain : ∀ event ∈ notes, event.Plain) :
    ∀ event ∈ Event.opened fd :: notes ++ [.started], event.Beside := by
  intro event member
  rcases List.mem_append.mp member with opens | last
  · exact beside_opening fd plain event opens
  · rw [List.mem_singleton.mp last]
    simp

omit [Platform] in
theorem giveUp_exit {number : Int} (left : Leaves (giveUp number text) before after) :
    after = stopped { before with errno := number } := by
  have ended := ((left.past (run_setErrno ..)).past (stop_run _)).past (EStateM.run_get ..)
  rcases ended with ⟨_, ran⟩ | ⟨_, ran⟩ <;> cases ran
  rfl

/-- A failing `setsockopt` is only reported. -/
theorem reuse_run (reuse : Option Int) (world : World Server) :
    ∃ errno notes, (reuse.forM fun errno => do
        setErrno errno
        emit (.printed ("setsockopt SO_REUSEADDR failed: " ++ Platform.strerror errno ++ "\n")) :
        Call Server Unit).run world = .ok () { world with errno, log := world.log ++ notes } ∧
      ∀ event ∈ notes, event.Plain := by
  cases reuse with
  | none => exact ⟨world.errno, [], by simp [Option.forM], by simp⟩
  | some errno => exact ⟨errno, [_], rfl, by simp [Event.Plain]⟩

theorem start_exits {script : StartScript} {port : UInt64} (left : Leaves (start script port) before after) :
    StartExit before after := by
  unfold start at left
  cases opens : script.socket with
  | failed errno =>
    simp only [opens] at left
    replace left := (left.past (run_setErrno ..)).past (run_alter ..)
    rcases left with ⟨_, ran⟩ | ⟨_, ran⟩ <;> cases ran
    exact .unopened errno
  | opened fd =>
    simp only [opens] at left
    replace left := (left.past (run_emit ..)).past (run_alter ..)
    obtain ⟨errno, notes, ran, plain⟩ := reuse_run script.reuse
      { before with object := { before.object with socket := fd }, log := before.log ++ [.opened fd] }
    replace left := (left.past ran).past (EStateM.run_get ..)
    rcases left.ite with ⟨_, left⟩ | ⟨_, left⟩
    · replace left := left.past (stop_run _)
      rcases left with ⟨_, ran⟩ | ⟨_, ran⟩ <;> cases ran
      have exit := (@StartExit.gaveUp before) fd before.object.maxFd errno before.object.active plain
      simpa using exit
    · cases binds : script.bound with
      | some number =>
        simp only [binds] at left
        have exit := (@StartExit.gaveUp before) fd before.object.maxFd number before.object.active plain
        rw [giveUp_exit left]
        simpa using exit
      | none =>
        simp only [binds] at left
        replace left := left.past (run_emit ..)
        have bound : ∀ event ∈ notes ++ [.bound before.object.address
            (if port ≠ 0 then port else before.object.port).toUInt16], event.Plain := by
          intro event member
          rcases List.mem_append.mp member with noted | last
          · exact plain event noted
          · rw [List.mem_singleton.mp last]
            trivial
        by_cases selectable : Selectable fd
        · rw [dif_pos selectable] at left
          replace left := left.past (run_alter ..)
          cases listens : script.listening with
          | some number =>
            simp only [listens] at left
            have exit := (@StartExit.gaveUp before) fd fd number (FdSet.zero.set fd selectable) bound
            rw [giveUp_exit left]
            simpa using exit
          | none =>
            simp only [listens] at left
            rcases left with ⟨_, ran⟩ | ⟨_, ran⟩ <;> cases ran
            have exit := (@StartExit.listening before) fd errno selectable bound
            simpa using exit
        · rw [dif_neg selectable] at left
          exact left.undefined.elim

/-! ### Runs -/

/-- A call, with the answers of the system. `accept`, `receive` and `remove` are
what `update` does with one descriptor. -/
inductive Operation where
  | start (script : StartScript) (port : UInt64)
  | accept (result : OpenResult)
  | receive (fd : Int) (script : RecvScript READ_BUFFER_SIZE)
  | remove (fd : Int)
  | defineAction (messageType : Int32) (action : Nat)
  | sendTo (message : Message) (clientId : Int) (result : SendResult)
  | sendToArray (message : Message) (clientIds : List (Int × SendResult))
  | update (rounds : List Round) (last : SelectEnd) (react : Nat → Reaction Reply)
  | stop

/-- Performs one call. -/
def perform : Operation → Call Server Unit
  | .start script port => start script port
  | .accept result => acceptNewConnection result
  | .receive fd script => do
    let _connected ← receiveClientMsg fd script
    pure ()
  | .remove fd => clearClient (.value fd)
  | .defineAction messageType action => defineAction messageType action
  | .sendTo message clientId result => sendTo message clientId result
  | .sendToArray message clientIds => sendToArray message clientIds
  | .update rounds last react => update rounds last react
  | .stop => stop

/-- Calls made one after the other, each left in some way the caller can go on
from, where the caller keeps to this condition. Undefined behaviour leaves no
way: a `sendTo` whose `::send` to a registered client fails is in no run. -/
inductive Run (allowed : Operation → World Server → Prop) (first : World Server) : World Server → Prop where
  | start : Run allowed first first
  | call (operation : Operation) (run : Run allowed first before) (may : allowed operation before)
      (left : Leaves (perform operation) before after) : Run allowed first after

/-- The calls of a list, are a run. -/
theorem run_of_inTurn {operations : List Operation} (run : Run (fun _ _ => True) first before)
    (ran : (inTurn (operations.map perform)).run before = .ok () after) : Run (fun _ _ => True) first after := by
  induction operations generalizing before with
  | nil =>
    cases ran
    exact run
  | cons operation operations ih =>
    obtain ⟨middle, left, rest⟩ := inTurn_cons ran
    exact ih (run.call operation trivial left) rest

theorem receive_steps (fd : Int) (script : RecvScript READ_BUFFER_SIZE) :
    StepsThrough Step (perform (.receive fd script)) :=
  .bind (receiveClientMsg_steps fd script) fun _ => .pure ()

/-- Every call but `start` goes in such turns. -/
theorem perform_turns (operation : Operation) (left : Leaves (perform operation) before after) :
    (∃ script port, operation = .start script port) ∧ StartExit before after ∨
      Relation.ReflTransGen Turn before after := by
  cases operation with
  | start script port => exact Or.inl ⟨⟨script, port, rfl⟩, start_exits left⟩
  | accept result => exact Or.inr (Step.turns (acceptNewConnection_steps result) _ _ left)
  | receive fd script => exact Or.inr (Step.turns (receive_steps fd script) _ _ left)
  | remove fd => exact Or.inr (Step.turns (clearClient_steps (.value fd)) _ _ left)
  | defineAction messageType action => exact Or.inr (defineAction_turns messageType action _ _ left)
  | sendTo message clientId result => exact Or.inr (Step.turns (sendTo_steps message clientId result) _ _ left)
  | sendToArray message clientIds => exact Or.inr (Step.turns (sendToArray_steps message clientIds) _ _ left)
  | update rounds last react => exact Or.inr (update_turns rounds last react _ _ left)
  | stop => exact Or.inr (stop_turns _ _ left)

omit [Platform] in
theorem StartExit.drained (exit : StartExit before after) (drained : before.object.Drained) :
    after.object.Drained := by
  cases exit with
  | unopened errno => exact drained
  | gaveUp fd maxFd errno active plain => exact drained_of_none rfl
  | listening fd errno selectable plain => exact drained

omit [Platform] in
theorem StartExit.logged (exit : StartExit before after) : before.log <+: after.log := by
  cases exit with
  | unopened errno => exact List.prefix_rfl
  | gaveUp fd maxFd errno active plain => exact (List.prefix_append _ _).trans (List.prefix_append _ _)
  | listening fd errno selectable plain => exact List.prefix_append _ _

/-- What every turn and every `start` keeps while the log meets a condition, a
run whose log meets it keeps. -/
theorem Run.keeps (condition : List Event → Event → Prop) (invariant : World Server → Prop)
    (turns : ∀ before after, Turn before after → before.object.Drained → Throughout condition after.log →
      invariant before → invariant after)
    (starts : ∀ before after script port, StartExit before after → allowed (.start script port) before →
      Throughout condition after.log → invariant before → invariant after)
    (drained : first.object.Drained) (holds : invariant first) (run : Run allowed first last) :
    last.object.Drained ∧ (Throughout condition last.log → invariant last) := by
  induction run with
  | start => exact ⟨drained, fun _ => holds⟩
  | call operation run may left ih =>
    rcases perform_turns operation left with ⟨⟨script, port, rfl⟩, exit⟩ | path
    · exact ⟨exit.drained ih.1, fun met => starts _ _ script port exit may met (ih.2 (met.before exit.logged))⟩
    · clear left
      induction path with
      | refl => exact ih
      | tail _ turn kept =>
        obtain ⟨drained, holds⟩ := kept
        exact ⟨turn.drained drained, fun met => turns _ _ turn drained met (holds (met.before (turn.logged drained)))⟩

end Steps

end Server
end Libftpp
