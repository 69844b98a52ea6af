import Libftpp.Sending

/-! The registry of a server over all that can follow a call. A call that runs
into undefined behaviour may leave anything behind, so the registry can be relied
on only as long as no call does. `sendTo` does when a `::send` to a registered
client fails: `_clearClient` erases the entry it has been given a reference into,
and then reads the reference again. -/
namespace Libftpp
open Program World

namespace Server
section Calls
variable [Platform]

/-- What a caller may find after calls made under some condition: what they leave
or, once one of them has had no meaning, anything. -/
inductive Reachable (allowed : Operation → World Server → Prop) (first : World Server) : World Server → Prop where
  | start : Reachable allowed first first
  | call (operation : Operation) (reached : Reachable allowed first before) (may : allowed operation before)
      (left : Leaves (perform operation) before after) : Reachable allowed first after
  | astray (operation : Operation) (reached : Reachable allowed first before) (may : allowed operation before)
      (meaningless : ¬ Defined (perform operation) before) : Reachable allowed first after

theorem Reachable.mono (reached : Reachable allowed first world)
    (laxer : ∀ operation world, allowed operation world → may operation world) : Reachable may first world := by
  induction reached with
  | start => exact .start
  | call operation _ allowed left ih => exact .call operation ih (laxer _ _ allowed) left
  | astray operation _ allowed meaningless ih => exact .astray operation ih (laxer _ _ allowed) meaningless

omit [Platform] in
/-- The calls that concern the registry, one at a time (`update` is made of
them). `start` is called on a server that does not listen, `accept` returns a
descriptor from 3 up to the capacity of an `fd_set` that is not open, and there
are fewer than 2^31 connections. -/
def Admissible : Operation → World Server → Prop
  | .start _ _, world => world.object.socket = -1
  | .accept (.opened fd), world =>
    2 < fd ∧ (fd : Int) < FD_SETSIZE ∧ (fd : Int) ∉ openFds world.log ∧ (assignedIds world.log).length + 1 < 2 ^ 31
  | .receive fd _, _ => Selectable fd
  | .update _ _ _, _ => False
  | _, _ => True

/-- A `sendTo` that comes to a `::send` can serialize its message, and the
`::send` takes something over. -/
def GetsThrough (message : Message) (clientId : Int) (result : SendResult) (world : World Server) : Prop :=
  ∀ fd, world.object.fdOf clientId = some fd → message.Valid ∧ ∃ count, result = .took count

/-- Besides, a listening socket fits an `fd_set`, no header received announces a
length that wraps, and no `::send` fails. -/
def Careful (operation : Operation) (world : World Server) : Prop :=
  Admissible operation world ∧
    match operation with
    | .start script _ => ∀ fd, script.socket = .opened fd → Selectable fd
    | .receive _ script => ∀ chunk ∈ script.chunks, Inbox.Orderly chunk.bytes
    | .sendTo message clientId result => GetsThrough message clientId result world
    | .sendToArray message answers => ∀ answer ∈ answers, GetsThrough message answer.1 answer.2 world
    | _ => True

/-! ### What such a call adds to the log -/

/-- No connection is accepted between these two logs. -/
def AcceptsNone (before after : List Event) : Prop := ∃ events, after = before ++ events ∧ ∀ fd, .accepted fd ∉ events

omit [Platform] in
theorem AcceptsNone.refl (log : List Event) : AcceptsNone log log := ⟨[], (List.append_nil _).symm, nofun⟩

omit [Platform] in
theorem AcceptsNone.trans (first : AcceptsNone before middle) (second : AcceptsNone middle after) :
    AcceptsNone before after := by
  obtain ⟨events, rfl, none⟩ := first
  obtain ⟨more, rfl, noMore⟩ := second
  refine ⟨events ++ more, List.append_assoc .., fun fd member => ?_⟩
  rcases List.mem_append.mp member with early | late
  · exact none fd early
  · exact noMore fd late

omit [Platform] in
theorem AcceptsNone.fresh (none : AcceptsNone before after) (fresh : Throughout AcceptsFresh before) :
    Throughout AcceptsFresh after := by
  obtain ⟨events, rfl, none⟩ := none
  exact fresh.append fun _ member _ fd same => absurd (same ▸ member) (none fd)

omit [Platform] in
theorem accepts_none_of_plain {events : List Event} (plain : ∀ event ∈ events, event.Plain) (fd : Int) :
    .accepted fd ∉ events := fun member => plain _ member

omit [Platform] in
theorem AcceptsNone.stopped (world : World Server) : AcceptsNone world.log (stopped world).log := by
  refine ⟨_, rfl, fun fd member => ?_⟩
  rcases List.mem_append.mp member with closes | last
  · rcases closing_cases closes with ⟨_, same⟩ | ⟨_, same⟩ <;> cases same
  · cases List.mem_singleton.mp last

omit [Platform] in
theorem AcceptsNone.start (exit : StartExit before after) : AcceptsNone before.log after.log := by
  cases exit with
  | unopened errno => exact .refl _
  | gaveUp fd maxFd errno active plain =>
    refine .trans ⟨_, rfl, fun other member => ?_⟩ (.stopped _)
    rcases List.mem_cons.mp member with same | noted
    · cases same
    · exact accepts_none_of_plain plain other noted
  | listening fd errno selectable plain =>
    refine ⟨_, rfl, fun other member => ?_⟩
    rcases List.mem_append.mp member with opening | last
    · rcases List.mem_cons.mp opening with same | noted
      · cases same
      · exact accepts_none_of_plain plain other noted
    · cases List.mem_singleton.mp last

/-! ### What such a call comes to -/

/-- The call has a meaning, and if `accept` has returned unused descriptors so
far, it still has afterwards. -/
def Proceeds (call : Call Server Unit) (world : World Server) : Prop :=
  Defined call world ∧ ∀ after, Leaves call world after →
    Throughout AcceptsFresh world.log → Throughout AcceptsFresh after.log

omit [Platform] in
theorem Proceeds.of_run {call : Call Server Unit} (ran : call.run world = .ok () after)
    (none : AcceptsNone world.log after.log) : Proceeds call world := by
  refine ⟨.of_run ran, ?_⟩
  rintro _ (⟨_, again⟩ | ⟨_, again⟩) <;> cases ran.symm.trans again
  exact none.fresh

omit [Platform] in
theorem Proceeds.past {first : Call Server Unit} {next : Unit → Call Server Unit} (rest : Proceeds (next ()) middle)
    (ran : first.run before = .ok () middle) (none : AcceptsNone before.log middle.log) :
    Proceeds (first >>= next) before :=
  ⟨.past _ ran rest.1, fun after left fresh => rest.2 after (left.past ran) (none.fresh fresh)⟩

omit [Platform] in
theorem Proceeds.of_raise {call : Call Server Unit} (ran : call.run world = .error (.thrown error) world) :
    Proceeds call world := by
  refine ⟨.of_raise ran, ?_⟩
  rintro _ (⟨_, again⟩ | ⟨_, again⟩) <;> cases ran.symm.trans again
  exact id

omit [Platform] in
theorem giveUp_defined (errno : Int) (text : String) (world : World Server) : Defined (giveUp errno text) world :=
  .past _ (run_setErrno ..) (.past _ (stop_run _) (.past _ (EStateM.run_get ..) (.of_raise rfl)))

/-- A `start` whose socket fits an `fd_set` returns or throws. -/
theorem start_defined {script : StartScript} (port : UInt64) (world : World Server)
    (fits : ∀ fd, script.socket = .opened fd → Selectable fd) : Defined (start script port) world := by
  unfold start
  cases opens : script.socket with
  | failed errno => exact .of_raise rfl
  | opened fd =>
    obtain ⟨errno, notes, ran, _⟩ := reuse_run script.reuse
      { world with object := { world.object with socket := fd }, log := world.log ++ [.opened fd] }
    refine .past _ (run_emit ..) (.past _ (run_alter ..) (.past _ ran (.past _ (EStateM.run_get ..) ?_)))
    split
    · exact .past _ (stop_run _) (.of_raise rfl)
    cases script.bound with
    | some number => exact giveUp_defined number _ _
    | none =>
      apply Defined.past _ (run_emit ..)
      rw [dif_pos (fits fd opens)]
      apply Defined.past _ (run_alter ..)
      cases script.listening with
      | some number => exact giveUp_defined number _ _
      | none => exact .of_run rfl

omit [Platform] in
/-- Up to the 2^31-th connection `accept` has a meaning, and it brings one
connection at most. -/
theorem Consistent.accept_proceeds {connfd : Nat} (consistent : Consistent world) (large : 2 < connfd)
    (fits : (connfd : Int) < FD_SETSIZE) (unused : (connfd : Int) ∉ openFds world.log)
    (few : (assignedIds world.log).length + 1 < 2 ^ 31) : Proceeds (acceptNewConnection (.opened connfd)) world := by
  have selectable : Selectable connfd := ⟨by omega, fits⟩
  have last : world.object.nextId ≠ INT_MAX := by
    rw [consistent.counted, INT_MAX]
    omega
  have accepted : AcceptsFresh world.log (.accepted connfd) := by
    intro fd same
    cases same
    exact ⟨by omega, fits, unused⟩
  have ends : ∀ events after, (acceptNewConnection (.opened connfd)).run world = .ok () after →
      after.log = world.log ++ .accepted connfd :: events → (∀ fd, .accepted fd ∉ events) →
      Proceeds (acceptNewConnection (.opened connfd)) world := by
    intro events after ran logged none
    refine ⟨.of_run ran, ?_⟩
    rintro _ (⟨_, again⟩ | ⟨_, again⟩) <;> cases ran.symm.trans again
    exact fun fresh => AcceptsNone.fresh ⟨events, by rw [logged, List.append_cons], none⟩ (fresh.snoc accepted)
  by_cases closed : world.object.socket < 0
  · apply Proceeds.of_run
    · rw [acceptNewConnection, EStateM.run_bind, EStateM.run_get]
      simp only [closed, ↓reduceIte]
      exact run_setErrno ..
    · exact .refl _
  by_cases full : NB_CONNECTION ≤ world.object.clients.entries.length
  · refine ends [.printed "Max connections reached, closing new connection\n", .closed connfd] { world with
      log := world.log ++ [.accepted connfd, .printed "Max connections reached, closing new connection\n",
        .closed connfd] } ?_ rfl (by simp)
    rw [acceptNewConnection, EStateM.run_bind, EStateM.run_get]
    simp [closed, full]
  · refine ends [.assigned connfd world.object.nextId] { world with
      object := world.object.register connfd selectable
      log := world.log ++ [.accepted connfd, .assigned connfd world.object.nextId] } ?_ rfl (by simp)
    rw [acceptNewConnection, EStateM.run_bind, EStateM.run_get]
    simp [closed, full, selectable, last]

/-- Chunks without a wrapping length are all taken in. -/
theorem receiveChunks_orderly {fd : Int} {chunks : List (Chunk READ_BUFFER_SIZE)} {world : World Server}
    (blank : world.object.Blank fd) (orderly : ∀ chunk ∈ chunks, Inbox.Orderly chunk.bytes) :
    ∃ after, (chunks.forM (receiveChunk fd)).run world = .ok () after ∧ AcceptsNone world.log after.log := by
  induction chunks generalizing world with
  | nil => exact ⟨world, rfl, .refl _⟩
  | cons chunk chunks ih =>
    rw [List.forall_mem_cons] at orderly
    obtain ⟨pending, new, ran, cleared, _⟩ :=
      receiveChunk_returns blank (Inbox.extractBytes_orderly orderly.1 (Nat.lt_succ_self _))
    obtain ⟨after, rest, none⟩ := @ih { world with
        object := { world.object with
          partialMsgs := world.object.partialMsgs.insert fd pending
          msgs := world.object.msgs ++ new }
        log := world.log ++ [.received fd chunk.bytes, .queued fd new] }
      (by rw [Blank, partialOf_insert]; exact cleared) orderly.2
    exact ⟨after, bind_returns.mpr ⟨_, _, ran, rest⟩, .trans ⟨_, rfl, by simp⟩ none⟩

theorem receive_proceeds {fd : Int} {script : RecvScript READ_BUFFER_SIZE} {world : World Server}
    (drained : world.object.Drained) (selectable : Selectable fd)
    (orderly : ∀ chunk ∈ script.chunks, Inbox.Orderly chunk.bytes) : Proceeds (perform (.receive fd script)) world := by
  obtain ⟨received, ran, none⟩ := receiveChunks_orderly (drained fd) orderly
  by_cases ready : fd ∈ world.object.readyRead.fds
  · replace ran : (forM script.chunks (receiveChunk fd) : Call Server Unit).run world = .ok () received := ran
    obtain ⟨after, ended, same⟩ : ∃ after, (perform (.receive fd script)).run world = .ok () after ∧
        after.log = received.log := by
      cases last : script.last with
      | endOfFile =>
        refine ⟨received, ?_, rfl⟩
        simp [perform, receiveClientMsg, selectable, ready, ran, last]
      | failed errno =>
        refine ⟨{ received with errno }, ?_, rfl⟩
        simp [perform, receiveClientMsg, selectable, ready, ran, last]
    exact .of_run ended (same ▸ none)
  · have ended : (perform (.receive fd script)).run world = .ok () world := by
      simp [perform, receiveClientMsg, selectable, ready]
    exact .of_run ended (.refl _)

/-- A `sendTo` that gets through returns, or throws before it has done anything. -/
theorem sendTo_gets_through {message : Message} {clientId : Int} {result : SendResult} {world : World Server}
    (consistent : Consistent world) (through : GetsThrough message clientId result world) :
    (∃ events, (sendTo message clientId result).run world = .ok () { world with log := world.log ++ events } ∧
        ∀ event ∈ events, event.Plain) ∨
      (sendTo message clientId result).run world = .error (.thrown .lengthError) world := by
  cases listed : world.object.fdOf clientId with
  | none =>
    refine Or.inl ⟨[], ?_, nofun⟩
    rw [List.append_nil, sendTo, EStateM.run_bind, EStateM.run_get]
    simp only [listed]
    rfl
  | some fd =>
    obtain ⟨valid, count, rfl⟩ := through fd listed
    have known := (consistent.inverse fd clientId).mpr listed
    have registered : world.object.Registered fd clientId := ⟨listed, known, consistent.watched fd clientId known⟩
    rcases Message.getSerializedData_defined valid with ⟨frame, serialized⟩ | tooLong
    · exact Or.inl ⟨_, sendTo_took registered serialized count, by simp [Event.Plain]⟩
    · refine Or.inr ?_
      have watched := registered.2.2
      have selectable := world.object.active.inside fd watched
      have observed : (observe message Message.getSerializedData : Call Server _).run world =
          .error (.thrown .lengthError) world := by rw [run_observe, tooLong]
      rw [sendTo, EStateM.run_bind, EStateM.run_get]
      simp only [listed, selectable, watched, not_true_eq_false, ↓reduceIte, EStateM.run_bind, observed]

theorem sendTo_proceeds {message : Message} {clientId : Int} {result : SendResult} {world : World Server}
    (consistent : Consistent world) (through : GetsThrough message clientId result world) :
    Proceeds (sendTo message clientId result) world := by
  rcases sendTo_gets_through consistent through with ⟨events, ran, plain⟩ | raised
  · exact .of_run ran ⟨events, rfl, accepts_none_of_plain plain⟩
  · exact .of_raise raised

/-- So the answers of an array can be taken one after the other. -/
theorem sendToArray_proceeds {message : Message} {answers : List (Int × SendResult)} {world : World Server}
    (consistent : Consistent world) (through : ∀ answer ∈ answers, GetsThrough message answer.1 answer.2 world) :
    Proceeds (sendToArray message answers) world := by
  induction answers generalizing world with
  | nil => exact .of_run rfl (.refl _)
  | cons answer answers ih =>
    rw [List.forall_mem_cons] at through
    rcases sendTo_gets_through consistent through.1 with ⟨events, ran, plain⟩ | raised
    · have later := @ih { world with log := world.log ++ events }
        (consistent.kept ((unrelated_of_plain plain).alike rfl rfl)) through.2
      exact later.past ran ⟨events, rfl, accepts_none_of_plain plain⟩
    · exact .of_raise (bind_stops.mpr (Or.inl raised))

/-- Every careful call has a meaning. -/
theorem Careful.proceeds {operation : Operation} {world : World Server} (careful : Careful operation world)
    (consistent : Consistent world) (drained : world.object.Drained) : Proceeds (perform operation) world := by
  obtain ⟨admissible, careful⟩ := careful
  cases operation with
  | start script port =>
    exact ⟨start_defined port world careful, fun _ left => (AcceptsNone.start (start_exits left)).fresh⟩
  | accept result =>
    cases result with
    | opened connfd =>
      obtain ⟨large, fits, unused, few⟩ := admissible
      exact consistent.accept_proceeds large fits unused few
    | failed errno =>
      obtain ⟨number, ran⟩ : ∃ number, (acceptNewConnection (.failed errno)).run world =
          .ok () { world with errno := number } := by
        by_cases closed : world.object.socket < 0
        · exact ⟨EBADF, by simp [acceptNewConnection, closed]⟩
        · exact ⟨errno, by simp [acceptNewConnection, closed]⟩
      exact .of_run ran (.refl _)
  | receive fd script => exact receive_proceeds drained admissible careful
  | remove fd =>
    cases known : world.object.clientOf fd with
    | none =>
      have ran : (clearClient (.value fd)).run world = .ok () world := by simp [clearClient, readFd, known]
      exact .of_run ran (.refl _)
    | some clientId =>
      refine .of_run (clearClient_clears (fun _ _ => rfl) known) ⟨_, rfl, ?_⟩
      intro other
      split <;> simp
  | defineAction messageType action => exact .of_run rfl (.refl _)
  | sendTo message clientId result => exact sendTo_proceeds consistent careful
  | sendToArray message answers => exact sendToArray_proceeds consistent careful
  | update rounds last react => exact admissible.elim
  | stop => exact .of_run (stop_run world) (.stopped world)

/-- So nothing goes astray, and what is reached is what the calls leave. -/
theorem run_of_reachable {address : String} {port : UInt64} {active readyRead : FdSet} {errno : Int}
    (reached : Reachable Careful ⟨.new address port active readyRead, errno, []⟩ world) :
    Run StartsIdle ⟨.new address port active readyRead, errno, []⟩ world ∧ Throughout AcceptsFresh world.log := by
  induction reached with
  | start => exact ⟨.start, throughout_nil⟩
  | @call before after operation _ careful left ih =>
    obtain ⟨run, fresh⟩ := ih
    obtain ⟨drained, consistent⟩ := consistent_of_run run
    have idle : StartsIdle operation before := by
      rintro script port rfl
      exact careful.1
    exact ⟨run.call operation idle left, (careful.proceeds (consistent fresh) drained).2 after left fresh⟩
  | astray operation _ careful meaningless ih =>
    obtain ⟨run, fresh⟩ := ih
    obtain ⟨drained, consistent⟩ := consistent_of_run run
    exact absurd (careful.proceeds (consistent fresh) drained).1 meaningless

/-- As long as the calls are careful, the registry is in order from the first
`start` that returns. -/
theorem registry_in_order {address : String} {port : UInt64} {active readyRead : FdSet} {errno : Int}
    (reached : Reachable Careful ⟨.new address port active readyRead, errno, []⟩ world)
    (started : .started ∈ world.log) : Registry world := by
  obtain ⟨run, fresh⟩ := run_of_reachable reached
  exact ((consistent_of_run run).2 fresh).registry started

end Calls

section Witnesses

attribute [local instance] Platform.littleEndian

/-- A server that listens on descriptor 3 and has accepted a connection on 5. -/
theorem accepting : ∃ world, Reachable Careful ⟨.new "" 8080 .zero .zero, 0, []⟩ world ∧
    .started ∈ world.log ∧ world.object.Registered 5 0 := by
  have reached := (@Reachable.start _ Careful ⟨.new "" 8080 .zero .zero, 0, []⟩).call
    (.start ⟨.opened 3, none, true, none, none⟩ 0) ⟨rfl, fun fd same => by cases same; decide⟩
    (.of_returns (run_exitState (by decide +kernel)))
  replace reached := reached.call (.accept (.opened 5))
    ⟨⟨by decide, by decide, by decide +kernel, by decide +kernel⟩, trivial⟩
    (.of_returns (run_exitState (by decide +kernel)))
  exact ⟨_, reached, by decide +kernel, by decide +kernel, by decide +kernel, by decide +kernel⟩

/-- It sends that client an empty message of type 7, and is stopped. -/
theorem registry_after_stop : ∃ world, Reachable Careful ⟨.new "" 8080 .zero .zero, 0, []⟩ world ∧
    .discarded ∈ world.log ∧ Registry world := by
  obtain ⟨world, reached, started, registered⟩ := accepting
  have serialized : Message.getSerializedData.run ⟨none, 7, .empty⟩ = .ok _ ⟨none, 7, .empty⟩ := rfl
  have sent := reached.call (.sendTo ⟨none, 7, .empty⟩ 0 (.took 12)) ⟨trivial, fun _ _ => ⟨by decide, 12, rfl⟩⟩
    (.of_returns (sendTo_took registered serialized 12))
  have ended := sent.call .stop ⟨trivial, trivial⟩ (.of_returns (stop_run _))
  exact ⟨_, ended, by simp [stopped], registry_in_order ended (by simp [stopped, started])⟩

/-- A server whose two maps say different things. -/
def misled : World Server :=
  ⟨{ Server.new "" 8080 .zero .zero with clients := AList.insert 5 0 ∅ }, 0, [.started]⟩

/-- A failed `::send` to that client reads an entry that is no longer there. After
that the server may be in any state. -/
theorem registry_lost_after_failed_send : ¬ ∀ world,
    Reachable Admissible ⟨.new "" 8080 .zero .zero, 0, []⟩ world → .started ∈ world.log → Registry world := by
  intro kept
  obtain ⟨world, reached, _, registered⟩ := accepting
  have serialized : Message.getSerializedData.run ⟨none, 7, .empty⟩ = .ok _ ⟨none, 7, .empty⟩ := rfl
  have meaningless : ¬ Defined (perform (.sendTo ⟨none, 7, .empty⟩ 0 (.failed EPIPE))) world := by
    intro defined
    exact defined _ (sendTo_failed registered serialized EPIPE)
  have astray : Reachable Admissible ⟨.new "" 8080 .zero .zero, 0, []⟩ misled :=
    .astray (.sendTo ⟨none, 7, .empty⟩ 0 (.failed EPIPE)) (reached.mono fun _ _ => And.left) trivial meaningless
  have found := ((kept misled astray (by decide)).inverse 5 0).mp rfl
  cases found

end Witnesses

end Server
end Libftpp
