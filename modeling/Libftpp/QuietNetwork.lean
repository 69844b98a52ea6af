import Libftpp.ServerAttribution
import Libftpp.ServerDispatch
import Libftpp.TwoRuns

/-! `Server::update` on a network that has nothing more to say. A `select` that
runs into its timeout does not set `errno`, but `update` looks at it as after a
failure: what some earlier call has left there decides whether the queue is
dispatched. Nothing else depends on `errno`. -/
namespace Libftpp
open Program World

namespace World

/-- Two worlds that differ at most in `errno`. -/
def SameButErrno (first second : World σ) : Prop := second.object = first.object ∧ second.log = first.log

theorem SameButErrno.emit (event : Event) : Agree SameButErrno (emit event : Call σ Unit) (World.emit event) :=
  .modify fun _ _ ⟨object, log⟩ => ⟨object, congrArg (· ++ [event]) log⟩

theorem SameButErrno.setErrno (errno : Int) :
    Agree SameButErrno (setErrno errno : Call σ Unit) (World.setErrno errno) :=
  .modify fun _ _ same => same

theorem SameButErrno.alter (change : σ → σ) : Agree SameButErrno (alter change) (World.alter change) :=
  .modify fun _ _ ⟨object, log⟩ => ⟨congrArg change object, log⟩

theorem SameButErrno.noting {call call' : Call σ α} (agree : Agree SameButErrno call call') :
    Agree SameButErrno (noting call) (World.noting call') := by
  intro one other same
  have ends := agree one other same
  rw [run_noting, run_noting]
  generalize call.run one = result at ends
  generalize call'.run other = result' at ends
  cases ends with
  | ok states => exact .ok states
  | @error _ _ halt states =>
    cases halt with
    | thrown error => exact .error ⟨states.1, congrArg (· ++ [.threw]) states.2⟩
    | undefined => exact .error states
    | diverges => exact .error states

end World

namespace Server

section Calls

/-- The rounds of the `while (_running)` loop in which `select` reports something. -/
def selectRounds [Platform] : List Round → Call Server Unit
  | [] => pure ()
  | round :: rounds => do
    alter fun server => { server with readyRead := server.active.select round.ready }
    scanFrom round 0 FD_SETSIZE
    selectRounds rounds

/-- The last `select` comes after these rounds. -/
theorem selectLoop_eq [Platform] (last : SelectEnd) (rounds : List Round) :
    selectLoop last rounds = (do selectRounds rounds; selectLoop last []) := by
  induction rounds with
  | nil => rfl
  | cons round rounds ih =>
    conv_lhs => rw [selectLoop, ih]
    rw [selectRounds]
    simp only [bind_assoc]

/-! ### What does not look at `errno` -/

/-- A call that behaves alike in worlds that differ only in `errno`. -/
def Blind (call : Call Server α) : Prop := Agree SameButErrno call call

theorem acceptNewConnection_blind (result : OpenResult) : Blind (acceptNewConnection result) := by
  apply Agree.get_bind
  rintro one other ⟨object, _⟩
  rw [object]
  apply Agree.ite (SameButErrno.setErrno _)
  cases result with
  | failed errno => exact SameButErrno.setErrno errno
  | opened connfd =>
    apply Agree.bind (SameButErrno.emit _)
    intro _
    apply Agree.ite
    · exact .bind (SameButErrno.emit _) fun _ => SameButErrno.emit _
    · split
      · exact .ite .undefinedBehaviour (.bind (SameButErrno.emit _) fun _ => SameButErrno.alter _)
      · exact .undefinedBehaviour

theorem readFd_blind (ref : FdRef) : Blind (readFd ref) := by
  cases ref with
  | value fd => exact .pure fd
  | entry clientId =>
    apply Agree.get_bind
    rintro one other ⟨object, _⟩
    rw [object]
    cases one.object.fdOf clientId with
    | none => exact .undefinedBehaviour
    | some fd => exact .pure fd

theorem clearClient_blind (ref : FdRef) : Blind (clearClient ref) := by
  apply Agree.bind (readFd_blind ref)
  intro fd
  apply Agree.get_bind
  rintro one other ⟨object, _⟩
  rw [object]
  cases one.object.clientOf fd with
  | none => exact .pure ()
  | some clientId =>
    have rest : Blind (do
        emit (.removed fd clientId)
        alter fun server => server.unregister fd clientId
        let again ← readFd ref
        alter fun server => server.dropPartial again) :=
      .bind (SameButErrno.emit _) fun _ => .bind (SameButErrno.alter _) fun _ =>
        .bind (readFd_blind ref) fun _ => SameButErrno.alter _
    exact .ite (.bind (SameButErrno.emit _) fun _ => rest) rest

theorem onPartial_blind (fd : Int) (operation : Program Exn Message α) : Blind (onPartial fd operation) := by
  apply Agree.zoom
  · rintro one other ⟨object, _⟩
    rw [object]
  · rintro one other pending ⟨object, log⟩
    exact ⟨by rw [object], log⟩

section
variable [Platform]

theorem decodeMessages_blind (fd : Int) : Blind (decodeMessages fd) := by
  apply Agree.get_bind
  rintro one other ⟨object, _⟩
  apply Agree.bind
  · apply Agree.zoom
    · rintro _ _ ⟨object, _⟩
      rw [object]
    · rintro _ _ inbox ⟨object, log⟩
      exact ⟨by rw [object], log⟩
  intro _
  apply Agree.get_bind
  rintro one' other' ⟨object', _⟩
  rw [object, object']
  exact SameButErrno.emit _

theorem receiveChunk_blind (fd : Int) (chunk : Chunk READ_BUFFER_SIZE) : Blind (receiveChunk fd chunk) := by
  apply Agree.bind (SameButErrno.emit _)
  intro _
  apply Agree.bind (onPartial_blind fd _)
  intro _
  exact .bind (decodeMessages_blind fd) fun _ => onPartial_blind fd _

theorem receiveClientMsg_blind (fd : Int) (script : RecvScript READ_BUFFER_SIZE) :
    Blind (receiveClientMsg fd script) := by
  apply Agree.get_bind
  rintro one other ⟨object, _⟩
  rw [object]
  apply Agree.ite .undefinedBehaviour
  apply Agree.ite (.pure _)
  apply Agree.bind (.forM _ (receiveChunk_blind fd))
  intro _
  cases script.last with
  | endOfFile => exact .pure _
  | failed errno => exact .bind (SameButErrno.setErrno errno) fun _ => .pure _

theorem serve_blind (round : Round) (fd : Int) : Blind (serve round fd) := by
  apply Agree.get_bind
  rintro one other ⟨object, _⟩
  rw [object]
  apply Agree.ite (acceptNewConnection_blind _)
  apply Agree.bind (receiveClientMsg_blind fd _)
  intro connected
  apply Agree.ite (.pure _)
  exact .bind (clearClient_blind _) fun _ => SameButErrno.alter _

theorem visit_blind (round : Round) (fd : Int) : Blind (visit round fd) := by
  apply Agree.get_bind
  rintro one other ⟨object, _⟩
  rw [object]
  apply Agree.ite (.pure _)
  apply Agree.bind (serve_blind round fd)
  intro _
  cases round.aside fd with
  | none => exact .pure ()
  | some errno => exact SameButErrno.setErrno errno

theorem scanFrom_blind (round : Round) (fd remaining : Nat) : Blind (scanFrom round fd remaining) := by
  induction remaining generalizing fd with
  | zero =>
    apply Agree.get_bind
    rintro one other ⟨object, _⟩
    rw [object]
    exact .ite .undefinedBehaviour (.pure _)
  | succ remaining ih =>
    apply Agree.get_bind
    rintro one other ⟨object, _⟩
    rw [object]
    exact .ite (.bind (visit_blind round fd) fun _ => ih (fd + 1)) (.pure _)

theorem selectRounds_blind (rounds : List Round) : Blind (selectRounds rounds) := by
  induction rounds with
  | nil => exact .pure ()
  | cons round rounds ih =>
    apply Agree.bind (SameButErrno.alter _)
    intro _
    exact .bind (scanFrom_blind round 0 _) fun _ => ih

theorem sendTo_blind (message : Message) (clientId : Int) (result : SendResult) :
    Blind (sendTo message clientId result) := by
  apply Agree.get_bind
  rintro one other ⟨object, _⟩
  rw [object]
  cases one.object.fdOf clientId with
  | none => exact .pure ()
  | some fd =>
    apply Agree.ite .undefinedBehaviour
    apply Agree.ite (.pure _)
    apply Agree.bind (.observe _ _)
    intro data
    apply Agree.ite (.pure _)
    cases result with
    | took count => exact SameButErrno.emit _
    | failed errno =>
      apply Agree.bind (SameButErrno.setErrno errno)
      intro _
      exact .bind (clearClient_blind _) fun _ => SameButErrno.emit _

theorem act_blind (reaction : Reaction Reply) : Blind (act reaction) := by
  apply Agree.bind
  · exact .forM _ fun reply => sendTo_blind reply.message reply.clientId reply.result
  intro _
  cases reaction.throws with
  | none => exact .pure ()
  | some what => exact .raise _

theorem dispatchMessage_blind (react : Nat → Reaction Reply) (index : Nat) : Blind (dispatchMessage react index) := by
  apply Agree.get_bind
  rintro one other ⟨object, _⟩
  rw [object]
  cases one.object.msgs[index]? with
  | none => exact .undefinedBehaviour
  | some message =>
    dsimp only
    cases one.object.taskOf message.type with
    | none => exact .pure ()
    | some action =>
      dsimp only
      cases message.fd with
      | none => exact .undefinedBehaviour
      | some fd =>
        dsimp only
        cases one.object.clientOf fd with
        | none => exact .pure ()
        | some clientId =>
          apply Agree.bind (SameButErrno.emit _)
          intro _
          exact .bind (SameButErrno.alter _) fun _ => SameButErrno.noting (act_blind _)

theorem dispatchFrom_blind (react : Nat → Reaction Reply) (index remaining : Nat) :
    Blind (dispatchFrom react index remaining) := by
  induction remaining generalizing index with
  | zero => exact .pure ()
  | succ remaining ih => exact .bind (dispatchMessage_blind react index) fun _ => ih (index + 1)

theorem dispatch_blind (react : Nat → Reaction Reply) : Blind (dispatch react) := by
  apply Agree.bind (SameButErrno.emit _)
  intro _
  apply Agree.get_bind
  rintro one other ⟨object, _⟩
  rw [object]
  apply Agree.bind (dispatchFrom_blind react 0 _)
  intro _
  exact .bind (SameButErrno.emit _) fun _ => SameButErrno.alter _

/-! ### The timeout -/

/-- `update` has set `_running`. -/
def begun (world : World Server) : World Server :=
  { world with object := { world.object with running := true } }

/-- The `select` loop takes this `errno` for a sign that `select` has failed. -/
def Interrupts (errno : Int) : Prop := errno = EBADF ∨ errno = EINTR

instance (errno : Int) : Decidable (Interrupts errno) := inferInstanceAs (Decidable (_ ∨ _))

/-- The last `select` runs into its timeout, and the loop ends in the ordinary way. -/
def timedOut (polled : World Server) : World Server :=
  { polled with object := { polled.object with readyRead := polled.object.active, running := false } }

/-- A call that comes to its timeout goes through the dispatch loop, and if it
returns it leaves no message in the queue. -/
def Flushes (rounds : List Round) (react : Nat → Reaction Reply) (before polled : World Server) : Prop :=
  ∀ after, Leaves (update rounds .timeout react) before after →
    .dispatching ∈ after.log.drop polled.log.length ∧
      ((update rounds .timeout react).run before = .ok () after → after.object.msgs = [])

theorem update_dispatches (rounds : List Round) (react : Nat → Reaction Reply) {before polled : World Server}
    (reaches : (selectRounds rounds).run (begun before) = .ok () polled) (calm : ¬ Interrupts polled.errno) :
    (update rounds .timeout react).run before = (dispatch react).run (timedOut polled) := by
  have goes : ¬ (polled.errno = EBADF ∨ polled.errno = EINTR) := calm
  unfold begun at reaches
  rw [update, selectLoop_eq]
  simp [selectLoop, reaches, goes, timedOut]

theorem update_returns_early (rounds : List Round) (react : Nat → Reaction Reply) {before polled : World Server}
    (reaches : (selectRounds rounds).run (begun before) = .ok () polled) (stale : Interrupts polled.errno) :
    ∃ object, (update rounds .timeout react).run before = .ok () { polled with
      object, log := polled.log ++ [.printed "Select interrupted, stopping server...\n"] } := by
  have stops : polled.errno = EBADF ∨ polled.errno = EINTR := stale
  unfold begun at reaches
  refine ⟨{ polled.object with readyRead := polled.object.active }, ?_⟩
  rw [update, selectLoop_eq]
  simp [selectLoop, reaches, stops]

/-- A timeout is a timeout unless `errno` says otherwise. -/
theorem flushes_iff (rounds : List Round) (react : Nat → Reaction Reply) {before polled : World Server}
    (reaches : (selectRounds rounds).run (begun before) = .ok () polled) :
    Flushes rounds react before polled ↔ ¬ Interrupts polled.errno := by
  constructor
  · intro flushes stale
    obtain ⟨object, ran⟩ := update_returns_early rounds react reaches stale
    have dispatches := (flushes _ (.of_returns ran)).1
    simp at dispatches
  · intro calm after left
    unfold Leaves at left
    rw [update_dispatches rounds react reaches calm] at left ⊢
    obtain ⟨returned, thrown⟩ := dispatch_meets react (timedOut polled)
    have logged : polled.log ++ [.dispatching] <+: after.log := by
      rcases left with ⟨_, ran⟩ | ⟨_, ran⟩
      · exact (returned _ _ ran).logged
      · exact (thrown _ _ ran).logged
    obtain ⟨events, logged⟩ := logged
    constructor
    · rw [← logged, List.append_assoc, List.drop_left]
      exact List.mem_append_left _ (List.mem_singleton.mpr rfl)
    · exact fun ran => (returned _ _ ran).queue

/-- An update that comes to its timeout does so whatever `errno` was at first.
Both calls go through the dispatch loop, leave the queue empty if they return,
and dispatch the same messages, if and only if neither finds `EBADF` or `EINTR`
in `errno` at the timeout. A dispatch loop in which a reply to a registered client
fails does not return: it has no meaning. -/
theorem quiet_update_flushes_iff (rounds : List Round) (react : Nat → Reaction Reply) {before polled : World Server}
    (errno : Int) (reaches : (selectRounds rounds).run (begun before) = .ok () polled) :
    ∃ polled', (selectRounds rounds).run (begun { before with errno }) = .ok () polled' ∧
      (Flushes rounds react before polled ∧ Flushes rounds react { before with errno } polled' ∧
          (∀ after, Leaves (update rounds .timeout react) before after →
            ∃ after', Leaves (update rounds .timeout react) { before with errno } after' ∧
              SameButErrno after after') ↔
        ¬ Interrupts polled.errno ∧ ¬ Interrupts polled'.errno) := by
  obtain ⟨polled', reaches', object, log⟩ :=
    (selectRounds_blind rounds).returns (show SameButErrno (begun before) (begun { before with errno }) from ⟨rfl, rfl⟩)
      reaches
  refine ⟨polled', reaches', ?_⟩
  rw [flushes_iff rounds react reaches, flushes_iff rounds react reaches']
  constructor
  · exact fun ⟨calm, calm', _⟩ => ⟨calm, calm'⟩
  · rintro ⟨calm, calm'⟩
    refine ⟨calm, calm', ?_⟩
    intro after left
    have same : SameButErrno (timedOut polled) (timedOut polled') := ⟨by rw [timedOut, timedOut, object], log⟩
    unfold Leaves at left ⊢
    rw [update_dispatches rounds react reaches calm] at left
    rw [update_dispatches rounds react reaches' calm']
    exact (dispatch_blind react).leaves same left

end
end Calls

section Witnesses

attribute [local instance] Platform.littleEndian

/-- A server that listens on descriptor 3, has accepted a client on descriptor 5
and knows an action for type 7. Something before has left this in `errno`. -/
def prepared (errno : Int) : Option (World Server) :=
  exitState (inTurn ([.start ⟨.opened 3, none, true, none, none⟩ 0, .accept (.opened 5),
    .defineAction 7 1].map perform)) ⟨.new "" 8080 .zero .zero, errno, []⟩

/-- Something before has left `EINTR`. The client sends a message and closes the
connection, which does not touch `errno`; `select` then runs into its timeout,
and the update returns without having dispatched the message. Without the
`EINTR` it would have been dispatched. -/
theorem timeout_taken_for_interrupt :
    ∃ before polled after after', prepared EINTR = some before ∧
      (selectRounds [frameRound .endOfFile]).run (begun before) = .ok () polled ∧
      (update [frameRound .endOfFile] .timeout fun _ => .idle).run before = .ok () after ∧
      .dispatching ∉ after.log.drop polled.log.length ∧ after.object.msgs ≠ [] ∧
      (update [frameRound .endOfFile] .timeout fun _ => .idle).run { before with errno := 0 } = .ok () after' ∧
      .dispatching ∈ after'.log.drop polled.log.length ∧ after'.object.msgs = [] :=
  ⟨_, _, _, _, (Option.some_get (by decide +kernel)).symm, run_exitState (by decide +kernel),
    run_exitState (by decide +kernel), by decide +kernel, by decide +kernel, run_exitState (by decide +kernel),
    by decide +kernel, by decide +kernel⟩

/-- A client that has nothing more to say for now leaves `EAGAIN`. -/
theorem quiet_update_flushes_one :
    ∃ before polled, prepared 0 = some before ∧
      (selectRounds [frameRound (.failed EAGAIN)]).run (begun before) = .ok () polled ∧
      polled.errno = EAGAIN ∧ Flushes [frameRound (.failed EAGAIN)] (fun _ => .idle) before polled := by
  have reaches := @run_exitState _ _ (begun ((prepared 0).get (by decide +kernel)))
    (selectRounds [frameRound (.failed EAGAIN)])
    (by decide +kernel)
  refine ⟨_, _, (Option.some_get _).symm, reaches, by decide +kernel, ?_⟩
  obtain ⟨_, again, agree⟩ := quiet_update_flushes_iff _ (fun _ => .idle) ((prepared 0).get (by decide +kernel)).errno reaches
  have same := (EStateM.Result.ok.inj (reaches.symm.trans again)).2
  exact (agree.mpr ⟨by decide +kernel, same ▸ by decide +kernel⟩).1

end Witnesses
end Server
end Libftpp
