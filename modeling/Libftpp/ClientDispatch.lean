import Libftpp.Client
import Libftpp.Dispatch

/-! The dispatch loop of the client. It goes through the queue in order and
through the actions of each message in the order of their registration; only
its normal end empties the queue. What has been passed at any moment is exactly
what lies before the place the loop has come to. -/
namespace Libftpp
open Program World

namespace Client

/-- The actions registered for a type. -/
def registered (client : Client) (messageType : Int32) : List Nat :=
  (client.triggersOf messageType).getD []

/-- The loop leaves everything but the queue alone. -/
structure Kept (start world : World Client) : Prop extends Retained msgs start world where
  kept : world.object = { start.object with msgs := world.object.msgs }

/-- The loop has come to this message and this action. -/
structure Underway (start : World Client) (index slot : Nat) (world : World Client) : Prop
    extends Kept start world where
  midway : (ledger start.log).Midway start.object.msgs.length 0 0 →
    (ledger world.log).Midway start.object.msgs.length index slot
  covered : ∀ earlier message, start.object.msgs[earlier]? = some message →
    ∀ place action, (start.object.registered message.type)[place]? = some action →
      earlier < index ∨ earlier = index ∧ place < slot →
        PassedTo start (ledger world.log) earlier place action message

/-- An exception has left the loop. -/
structure Abandoned (start world : World Client) : Prop extends Kept start world where
  tidy : (ledger start.log).Midway start.object.msgs.length 0 0 →
    (ledger world.log).Tidy start.object.msgs.length

/-- Steps that leave the client alone, and what an exception notes. -/
theorem Kept.noted (kept : Kept start world) (object : after.object = world.object)
    (logged : world.log <+: after.log)
    (books : ∃ owner interrupted, ledger after.log = { ledger world.log with owner, interrupted }) :
    Kept start after where
  toRetained := kept.toRetained.noted (congrArg msgs object) logged books
  kept := by
    rw [object]
    exact kept.kept

theorem Underway.refl (start : World Client) : Underway start 0 0 start where
  toKept := ⟨.refl start, rfl⟩
  midway := id
  covered earlier _ _ _ _ _ position := by omega

theorem Underway.hushed (underway : Underway start index slot world)
    (steps : Relation.ReflTransGen (Hushed id) world after) : Underway start index slot after := by
  obtain ⟨same, logged, owner, books⟩ := Hushed.books steps
  constructor
  · exact underway.toKept.noted same logged ⟨owner, _, books⟩
  · intro fresh
    rw [books]
    exact (underway.midway fresh).owned owner
  · rw [books]
    exact underway.covered

/-- The loop hands the message it has come to to the next action. -/
theorem Underway.invoked (underway : Underway start index slot world)
    (shape : start.object.msgs[index]? = some message)
    (next : (start.object.registered message.type)[slot]? = some action)
    (same : message.SameContent now) (reads : Nat) :
    Underway start index (slot + 1)
      { world with
        object := { world.object with msgs := world.object.msgs.set index (now.readBy reads) }
        log := world.log ++ [.invoked index slot action none now] } := by
  constructor
  · constructor
    · exact underway.toRetained.invoked shape same rfl rfl
    · exact congrArg
        (fun client : Client => { client with msgs := world.object.msgs.set index (now.readBy reads) })
        underway.kept
  · intro fresh
    rw [ledger_snoc]
    exact (underway.midway fresh).invoked action none now
  · intro earlier other member place action' registers position
    by_cases here : earlier = index ∧ place = slot
    · obtain ⟨rfl, rfl⟩ := here
      rw [shape] at member
      cases member
      rw [next] at registers
      cases registers
      exact underway.passedTo same rfl
    · apply (underway.covered earlier other member place action' registers (by omega)).grown
      intro pass passed
      rw [ledger_snoc]
      exact List.mem_append_left _ passed

/-- The loop has been through all actions of a message. -/
theorem Underway.next (underway : Underway start index slot world)
    (shape : start.object.msgs[index]? = some message)
    (through : (start.object.registered message.type).length ≤ slot) : Underway start (index + 1) 0 world where
  toKept := underway.toKept
  midway fresh := (underway.midway fresh).next
  covered earlier other member place action registers position := by
    apply underway.covered earlier other member place action registers
    by_cases here : earlier = index
    · subst here
      rw [shape] at member
      cases member
      have inside := (List.getElem?_eq_some_iff.mp registers).1
      omega
    · omega

theorem Underway.abandoned (underway : Underway start index slot world)
    (inside : index < start.object.msgs.length) :
    Abandoned start { world with log := world.log ++ [.threw] } where
  toKept := underway.toKept.noted rfl (List.prefix_append _ _) ⟨_, true, ledger_snoc ..⟩
  tidy fresh := by
    rw [ledger_snoc]
    exact (underway.midway fresh).next.threw inside

/-- What the normal end of such a loop leaves: an empty queue, all of it passed
to every action registered. -/
structure Dispatched (start world : World Client) : Prop extends Emptied msgs start world where
  kept : world.object = { start.object with msgs := [] }
  tidy : (ledger start.log).Midway start.object.msgs.length 0 0 → (ledger world.log).Tidy 0
  covered : ∀ index message, start.object.msgs[index]? = some message →
    ∀ slot action, (start.object.registered message.type)[slot]? = some action →
      PassedTo start (ledger world.log) index slot action message

theorem Underway.dispatched (through : Underway start start.object.msgs.length 0 world) :
    Dispatched start
      { world with
        object := { world.object with msgs := [] }
        log := world.log ++ [.discarded] } := by
  constructor
  · exact through.toRetained.emptied rfl
  · exact congrArg (fun client : Client => { client with msgs := [] }) through.kept
  · intro fresh
    rw [ledger_snoc]
    exact (through.midway fresh).discarded
  · intro index message shape slot action registers
    rw [ledger_snoc]
    exact through.covered index message shape slot action registers
      (Or.inl (List.getElem?_eq_some_iff.mp shape).1)

section Loop
variable [Platform]

theorem send_hushed (message : Message) (result : SendResult) :
    StepsThrough (Hushed id) (send message result) := by
  apply StepsThrough.bind (.observe _ _)
  intro data
  apply StepsThrough.bind .get
  intro world
  apply StepsThrough.ite
  · intro _
    exact Hushed.setErrno _
  · intro _
    cases result with
    | took count => exact Hushed.emit (Event.aside_of_note fun _ => rfl)
    | failed errno => exact Hushed.setErrno errno

theorem act_hushed (reaction : Reaction (Message × SendResult)) :
    StepsThrough (Hushed id) (act reaction) := by
  apply StepsThrough.bind
  · exact .forM _ fun reply _ => send_hushed reply.1 reply.2
  · intro _
    cases reaction.throws with
    | none => exact .pure ()
    | some what => exact .raise _

/-- What has to be shown of one invocation for a statement about the place the
loop has come to to hold at its end, and of what an exception leaves of it. -/
structure LoopRule (react : Nat → Nat → Reaction (Message × SendResult)) (start : World Client)
    (reached : Nat → Nat → World Client → Prop) (thrown : World Client → Prop) : Prop where
  current : ∀ index slot world message, reached index slot world → start.object.msgs[index]? = some message →
    ∃ now, world.object.msgs[index]? = some now ∧
      world.object.triggersOf now.type = start.object.triggersOf message.type
  invoked : ∀ index slot world message now action, reached index slot world →
    start.object.msgs[index]? = some message → world.object.msgs[index]? = some now →
      (start.object.registered message.type)[slot]? = some action →
        Meets (invoke (react index slot) index slot action now) world (fun _ => reached index (slot + 1)) thrown
  passed : ∀ index slot world message, reached index slot world → start.object.msgs[index]? = some message →
    (start.object.registered message.type).length ≤ slot → reached (index + 1) 0 world

section LoopRule
variable {react : Nat → Nat → Reaction (Message × SendResult)} {reached : Nat → Nat → World Client → Prop}
  {thrown : World Client → Prop} (rule : LoopRule react start reached thrown)
include rule

/-- The actions that are left for one message. -/
theorem LoopRule.invokeAll (shape : start.object.msgs[index]? = some message) (place : reached index slot world)
    (left : (start.object.registered message.type).drop slot = actions) :
    Meets (invokeAll react index slot actions) world (fun _ => reached (index + 1) 0) thrown := by
  induction actions generalizing slot world with
  | nil => exact .pure (rule.passed _ _ _ _ place shape (List.drop_eq_nil_iff.mp left))
  | cons action actions ih =>
    obtain ⟨now, found, _⟩ := rule.current _ _ _ _ place shape
    have next : (start.object.registered message.type)[slot]? = some action := by
      rw [← List.head?_drop, left, List.head?_cons]
    have later : (start.object.registered message.type).drop (slot + 1) = actions := by
      rw [← List.tail_drop, left, List.tail_cons]
    apply Meets.bind
    apply Meets.of_run (EStateM.run_get ..)
    simp only [found]
    apply Meets.bind
    apply (rule.invoked _ _ _ _ _ _ place shape found next).mono
    · intro _ middle moved
      exact ih moved later
    · exact fun _ => id

theorem LoopRule.dispatchMessage (shape : start.object.msgs[index]? = some message) (place : reached index 0 world) :
    Meets (dispatchMessage react index) world (fun _ => reached (index + 1) 0) thrown := by
  obtain ⟨now, found, listed⟩ := rule.current _ _ _ _ place shape
  apply Meets.bind
  apply Meets.of_run (EStateM.run_get ..)
  simp only [found, listed]
  cases known : start.object.triggersOf message.type with
  | none =>
    apply Meets.pure
    exact rule.passed _ _ _ _ place shape (by simp [registered, known])
  | some actions => exact rule.invokeAll shape place (by simp [registered, known])

theorem LoopRule.dispatchFrom (size : index + remaining = start.object.msgs.length) (place : reached index 0 world) :
    Meets (dispatchFrom react index remaining) world (fun _ => reached start.object.msgs.length 0) thrown := by
  induction remaining generalizing index world with
  | zero =>
    apply Meets.pure
    rwa [← size, Nat.add_zero]
  | succ remaining ih =>
    have inside : index < start.object.msgs.length := by omega
    apply Meets.bind
    apply (rule.dispatchMessage (List.getElem?_eq_getElem inside) place).mono
    · intro _ middle moved
      exact ih (by omega) moved
    · exact fun _ => id

end LoopRule

/-- One action: the loop moves on, or is left with the queue as it is. -/
theorem invoke_meets (underway : Underway start index slot world)
    (shape : start.object.msgs[index]? = some message)
    (next : (start.object.registered message.type)[slot]? = some action)
    (same : message.SameContent now) (reaction : Reaction (Message × SendResult)) :
    Meets (invoke reaction index slot action now) world
      (fun _ after => Underway start index (slot + 1) after) (Abandoned start) := by
  have handed := underway.invoked shape next same reaction.reads
  apply Meets.bind
  apply Meets.of_run (run_emit ..)
  apply Meets.bind
  apply Meets.of_run (run_alter ..)
  constructor
  · intro _ after ran
    exact handed.hushed (act_hushed reaction _ _ (.of_returns (noting_returns.mp ran)))
  · intro error after ran
    obtain ⟨middle, threw, rfl⟩ := noting_throws.mp ran
    have reached := handed.hushed (act_hushed reaction _ _ (Or.inr ⟨error, threw⟩))
    exact reached.abandoned (List.getElem?_eq_some_iff.mp shape).1

theorem underway_rule (react : Nat → Nat → Reaction (Message × SendResult)) (start : World Client) :
    LoopRule react start (Underway start) (Abandoned start) where
  current index slot world message underway shape := by
    obtain ⟨now, found, same⟩ := underway.current shape
    refine ⟨now, found, ?_⟩
    rw [underway.kept, same.1]
    rfl
  invoked index slot world message now action underway shape found next := by
    obtain ⟨_, found', same⟩ := underway.current shape
    cases found.symm.trans found'
    exact invoke_meets underway shape next same (react index slot)
  passed index slot world message underway shape through := underway.next shape through

/-- The whole second half of `update`. -/
theorem dispatch_meets (react : Nat → Nat → Reaction (Message × SendResult)) (world : World Client) :
    Meets (dispatch react) world
      (fun _ after => Dispatched { world with log := world.log ++ [.dispatching] } after)
      (Abandoned { world with log := world.log ++ [.dispatching] }) := by
  apply Meets.bind
  apply Meets.of_run (run_emit ..)
  apply Meets.bind
  apply Meets.of_run (EStateM.run_get ..)
  apply Meets.bind
  apply ((underway_rule react _).dispatchFrom (Nat.zero_add _) (Underway.refl _)).mono
  · intro _ middle through
    apply Meets.bind
    apply Meets.of_run (run_emit ..)
    exact Meets.of_run (run_alter ..) through.dispatched
  · exact fun _ => id

end Loop

end Client
end Libftpp
