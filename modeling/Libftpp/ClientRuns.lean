import Libftpp.ClientReception
import Libftpp.ClientDispatch

/-! Runs of a client: any calls of its public functions, one after the other,
whose exceptions the caller catches. Outside the dispatch loop a call does
nothing to the queue but add to it, and it never moves the cursor of the partial
message past its end. -/
namespace Libftpp
open Program World

namespace Client

/-- A call of a public function, with the answers of the system. -/
inductive Operation where
  | connect (script : ConnectScript) (address : String) (port : UInt64)
  | disconnect
  | defineAction (messageType : Int32) (action : Nat)
  | send (message : Message) (result : SendResult)
  | update (healthy : Bool) (polls : List (RecvScript MAX_READ_BUFFER))
      (react : Nat → Nat → Reaction (Message × SendResult))

/-- What reception and dispatch work on. -/
structure Mail where
  msgs : List Message
  tmpMsg : Message
  triggers : AList fun _ : Int32 => List Nat

def mail (client : Client) : Mail := ⟨client.msgs, client.tmpMsg, client.triggers⟩

/-- One step of a call outside the dispatch loop. A partial message whose cursor
is past its end would allow anything. -/
inductive Step : World Client → World Client → Prop where
  | hushed (step : Hushed mail before after) : Step before after
  | fed (sound : before.object.tmpMsg.Valid → pending.Valid) :
      Step before { before with object := { before.object with tmpMsg := pending } }
  | queued (sound : pending.Valid) (new : List Message) :
      Step before
        { before with
          object := { before.object with tmpMsg := pending, msgs := before.object.msgs ++ new }
          log := before.log ++ [.queued before.object.fd new] }
  | lost (broken : ¬ before.object.tmpMsg.Valid) : Step before after

/-- What such steps make of a client and its log. -/
structure Received (before after : World Client) : Prop where
  inside : after.object.tmpMsg.Valid
  logged : before.log <+: after.log
  queue : before.object.msgs <+: after.object.msgs
  triggers : after.object.triggers = before.object.triggers
  passes : (ledger after.log).passes = (ledger before.log).passes
  dropped : (ledger after.log).dropped = (ledger before.log).dropped
  counted : (ledger before.log).waiting.length = before.object.msgs.length →
    (ledger after.log).waiting.length = after.object.msgs.length
  interrupted : (ledger after.log).interrupted = (ledger before.log).interrupted
  tidy : (ledger before.log).Tidy before.object.msgs.length →
    (ledger after.log).Tidy after.object.msgs.length

theorem Received.refl (inside : world.object.tmpMsg.Valid) : Received world world :=
  ⟨inside, List.prefix_rfl, List.prefix_rfl, rfl, rfl, rfl, id, rfl, id⟩

theorem Received.step (received : Received start before) (step : Step before after) :
    Received start after := by
  cases step with
  | hushed step =>
    obtain ⟨same, logged, owner, books⟩ := Hushed.books (.single step)
    obtain ⟨msgs, tmpMsg, triggers⟩ := Mail.mk.inj same
    constructor
    · rw [tmpMsg]
      exact received.inside
    · exact received.logged.trans logged
    · rw [msgs]
      exact received.queue
    · exact triggers.trans received.triggers
    · rw [books]
      exact received.passes
    · rw [books]
      exact received.dropped
    · rw [books, msgs]
      exact received.counted
    · rw [books]
      exact received.interrupted
    · intro tidy
      have kept := received.tidy tidy
      rw [books, msgs]
      exact ⟨kept.counted, kept.once, kept.known, kept.gone⟩
  | fed sound =>
    exact { received with inside := sound received.inside }
  | queued sound new =>
    constructor
    · exact sound
    · exact received.logged.trans (List.prefix_append _ _)
    · exact received.queue.trans (List.prefix_append _ _)
    · exact received.triggers
    · rw [ledger_snoc]
      exact received.passes
    · rw [ledger_snoc]
      exact received.dropped
    · intro counted
      simp [Ledger.note, received.counted counted]
    · rw [ledger_snoc]
      exact received.interrupted
    · intro tidy
      rw [ledger_snoc, List.length_append]
      exact (received.tidy tidy).queued before.object.fd new
  | lost broken => exact absurd received.inside broken

theorem received_of_steps (inside : before.object.tmpMsg.Valid)
    (steps : Relation.ReflTransGen Step before after) : Received before after := by
  induction steps with
  | refl => exact .refl inside
  | tail _ step ih => exact ih.step step

/-! ### Every call outside the dispatch loop takes such steps -/

theorem disconnect_hushed : StepsThrough (Hushed mail) disconnect := by
  apply StepsThrough.bind .get
  intro world
  dsimp only
  apply StepsThrough.ite
  · intro _
    apply StepsThrough.bind (Hushed.emit (Event.aside_of_note fun _ => rfl))
    exact fun _ => Hushed.alter fun _ => rfl
  · exact fun _ => Hushed.alter fun _ => rfl

theorem receiveChunks_steps (chunks : List (Chunk MAX_READ_BUFFER)) :
    StepsThrough Step (receiveChunks chunks) := by
  induction chunks with
  | nil => exact .pure _
  | cons chunk chunks ih =>
    apply StepsThrough.bind .get
    intro world
    apply StepsThrough.bind
    · exact (Hushed.emit (Event.aside_of_note fun _ => rfl)).mono fun _ _ => .hushed
    · intro _
      refine StepsThrough.bind ?_ fun _ => ih
      intro before after left
      obtain ⟨pending, appended, rfl⟩ := left.zoom
      obtain ⟨buf, grown, rfl⟩ := appended.zoom
      exact .single (.fed fun inside => DataBuffer.append_valid grown inside)

section Calls
variable [Platform]

theorem networkError_hushed (errorMsg : String) : StepsThrough (Hushed mail) (networkError errorMsg) := by
  apply StepsThrough.bind disconnect_hushed
  intro _
  apply StepsThrough.bind .get
  intro world
  exact .raise _

theorem connect_hushed (script : ConnectScript) (address : String) (port : UInt64) :
    StepsThrough (Hushed mail) (connect script address port) := by
  apply StepsThrough.bind disconnect_hushed
  intro _
  cases script.socket with
  | failed errno =>
    apply StepsThrough.bind (Hushed.setErrno errno)
    intro _
    exact StepsThrough.bind (Hushed.alter fun _ => rfl) fun _ => networkError_hushed _
  | opened fd =>
    apply StepsThrough.bind (Hushed.emit (Event.aside_of_note fun _ => rfl))
    intro _
    apply StepsThrough.bind
    · exact Hushed.alter fun _ => rfl
    intro _
    apply StepsThrough.ite
    · intro _
      exact networkError_hushed _
    · intro _
      apply StepsThrough.bind (Hushed.emit (Event.aside_of_note fun _ => rfl))
      intro _
      cases script.refused with
      | none => exact .pure ()
      | some errno => exact StepsThrough.bind (Hushed.setErrno errno) fun _ => networkError_hushed _

theorem decodeMessages_steps : StepsThrough Step decodeMessages := by
  intro before after left
  by_cases inside : before.object.tmpMsg.Valid
  · cases reads : Inbox.extractBytes (before.object.tmpMsg.unread.length + 1) before.object.tmpMsg.unread with
    | ok result =>
      obtain ⟨pending, new, ran, sound, _⟩ := decodeMessages_returns inside reads
      rcases left with ⟨value, ran'⟩ | ⟨error, ran'⟩ <;> rw [ran] at ran' <;> cases ran'
      exact .single (.queued sound new)
    | error halt =>
      obtain ⟨state, ran⟩ := decodeMessages_fails inside reads
      rcases left with ⟨value, ran'⟩ | ⟨error, ran'⟩ <;> rw [ran] at ran' <;> cases ran'
      rcases Inbox.extractBytes_error reads with never | never <;> cases never
  · exact .single (.lost inside)

theorem receiveMessage_steps (script : RecvScript MAX_READ_BUFFER) :
    StepsThrough Step (receiveMessage script) := by
  apply StepsThrough.bind (receiveChunks_steps _)
  intro _
  cases script.last with
  | endOfFile => exact disconnect_hushed.mono fun _ _ => .hushed
  | failed errno =>
    apply StepsThrough.bind ((Hushed.setErrno errno).mono fun _ _ => .hushed)
    intro _
    apply StepsThrough.ite
    · intro _
      apply StepsThrough.ite
      · exact fun _ => disconnect_hushed.mono fun _ _ => .hushed
      · exact fun _ => (networkError_hushed _).mono fun _ _ => .hushed
    · exact fun _ => decodeMessages_steps

theorem poll_steps (polls : List (RecvScript MAX_READ_BUFFER)) : StepsThrough Step (poll polls) := by
  induction polls with
  | nil =>
    apply StepsThrough.bind .get
    intro world
    apply StepsThrough.ite
    · intro _
      exact .ite (fun _ => .undefinedBehaviour) fun _ => .pure _
    · exact fun _ => .pure _
  | cons script polls ih =>
    apply StepsThrough.bind .get
    intro world
    apply StepsThrough.ite
    · intro _
      apply StepsThrough.ite
      · exact fun _ => .undefinedBehaviour
      · exact fun _ => .bind (receiveMessage_steps script) fun _ => ih
    · exact fun _ => .pure _

theorem receiveCalls_steps (calls : List (List (Chunk MAX_READ_BUFFER))) :
    StepsThrough Step (receiveCalls calls) := by
  induction calls with
  | nil => exact .pure _
  | cons chunks calls ih => exact .bind (receiveMessage_steps _) fun _ => ih

/-! ### Runs -/

/-- Performs one call. -/
def perform : Operation → Call Client Unit
  | .connect script address port => connect script address port
  | .disconnect => disconnect
  | .defineAction messageType action => defineAction messageType action
  | .send message result => send message result
  | .update healthy polls react => update healthy polls react

/-- What holds of a client between two calls. -/
structure Sound (world : World Client) : Prop where
  inside : world.object.tmpMsg.Valid
  tidy : NoDispatchAfterThrow world.log → (ledger world.log).Tidy world.object.msgs.length

omit [Platform] in
theorem Sound.start (errno : Int) : Sound ⟨.new, errno, []⟩ :=
  ⟨DataBuffer.empty_valid, fun _ => .start⟩

omit [Platform] in
theorem Sound.received (sound : Sound before) (received : Received before after) : Sound after :=
  ⟨received.inside, fun calm => received.tidy (sound.tidy (calm.before received.logged))⟩

omit [Platform] in
/-- A dispatch loop that may start finds nothing in the queue that was passed before. -/
theorem Sound.midway (sound : Sound world) (calm : NoDispatchAfterThrow after)
    (logged : world.log ++ [.dispatching] <+: after) :
    (ledger (world.log ++ [.dispatching])).Midway world.object.msgs.length 0 0 := by
  have started : NoDispatchAfterThrow (world.log ++ [.dispatching]) := calm.before logged
  rw [ledger_snoc]
  exact (sound.tidy (started.before (List.prefix_append _ _))).dispatching (started.last rfl)

omit [Platform] in
theorem Sound.dispatched (sound : Sound world)
    (dispatched : Dispatched { world with log := world.log ++ [.dispatching] } after) : Sound after := by
  constructor
  · rw [dispatched.kept]
    exact sound.inside
  · intro calm
    rw [dispatched.kept]
    exact dispatched.tidy (sound.midway calm dispatched.logged)

omit [Platform] in
theorem Sound.abandoned (sound : Sound world)
    (abandoned : Abandoned { world with log := world.log ++ [.dispatching] } after) : Sound after := by
  constructor
  · rw [abandoned.kept]
    exact sound.inside
  · intro calm
    rw [← abandoned.alike.length_eq]
    exact abandoned.tidy (sound.midway calm abandoned.logged)

theorem update_sound (sound : Sound before) (left : Leaves (update healthy polls react) before after) :
    Sound after := by
  rcases left.bind with left | ⟨world, middle, ran, left⟩
  · rcases left with ⟨value, ran⟩ | ⟨error, ran⟩ <;> cases ran
    exact sound
  · cases ran
    rcases left.ite with ⟨_, left⟩ | ⟨_, left⟩
    · rcases left with ⟨value, ran⟩ | ⟨error, ran⟩ <;> cases ran
      exact sound
    · rcases left.bind with left | ⟨_, polled, ran, left⟩
      · exact sound.received (received_of_steps sound.inside (poll_steps polls _ _ left))
      · have kept := sound.received (received_of_steps sound.inside (poll_steps polls _ _ (.of_returns ran)))
        apply Meets.leaves _ left
        exact (dispatch_meets react polled).mono (fun _ _ => kept.dispatched) fun _ => kept.abandoned

theorem perform_sound (operation : Operation) (sound : Sound before)
    (left : Leaves (perform operation) before after) : Sound after := by
  cases operation with
  | connect script address port =>
    exact sound.received (received_of_steps sound.inside
      ((connect_hushed script address port).mono (fun _ _ => .hushed) _ _ left))
  | disconnect =>
    exact sound.received (received_of_steps sound.inside
      (disconnect_hushed.mono (fun _ _ => .hushed) _ _ left))
  | defineAction messageType action =>
    rcases left with ⟨value, ran⟩ | ⟨error, ran⟩ <;> cases ran
    exact ⟨sound.inside, sound.tidy⟩
  | send message result =>
    exact sound.received (received_of_steps sound.inside
      ((send_hushed message result).mono (fun _ _ step => .hushed step.coarser) _ _ left))
  | update healthy polls react => exact update_sound sound left

/-- Any number of calls. -/
theorem run_sound (operations : List Operation) (sound : Sound before)
    (ran : (inTurn (operations.map perform)).run before = .ok () after) : Sound after :=
  inTurn_keeps (fun operation _ _ holds left => perform_sound operation holds left) sound ran

/-- A connected client polls and dispatches. -/
theorem update_connected (connected : before.object.fd > 0) :
    (update true polls react).run before = (do poll polls; dispatch react : Call Client Unit).run before := by
  have enters : ¬ (before.object.fd ≤ 0 ∨ ¬ true = true) := by simpa using connected
  rw [update, EStateM.run_bind, EStateM.run_get]
  exact congrArg (EStateM.run · before) (if_neg enters)

end Calls

end Client
end Libftpp
