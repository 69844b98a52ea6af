import Libftpp.Dispatch
import Libftpp.ServerAttribution

/-! The dispatch loop of the server. It goes through the queue in order and
looks up one action for each type and one client for each descriptor; a message
without either is passed over. Replies that cannot be sent remove clients while
the loop runs, so a client it still knows at the end it knew all along. -/
namespace Libftpp
open Program World

namespace Server

/-- What the replies of an action do: they may remove clients. -/
structure Replied (before after : World Server) : Prop where
  msgs : after.object.msgs = before.object.msgs
  tasks : after.object.tasks = before.object.tasks
  clients : ∀ fd clientId, after.object.clientOf fd = some clientId → before.object.clientOf fd = some clientId
  logged : before.log <+: after.log
  books : ledger after.log = ledger before.log

theorem Replied.refl (world : World Server) : Replied world world :=
  ⟨rfl, rfl, fun _ _ => id, List.prefix_rfl, rfl⟩

theorem Replied.trans (first : Replied before middle) (second : Replied middle after) : Replied before after where
  msgs := second.msgs.trans first.msgs
  tasks := second.tasks.trans first.tasks
  clients fd clientId known := first.clients fd clientId (second.clients fd clientId known)
  logged := first.logged.trans second.logged
  books := second.books.trans first.books

theorem replied_of_steps (steps : Relation.ReflTransGen Replied before after) : Replied before after := by
  induction steps with
  | refl => exact .refl _
  | tail _ step ih => exact ih.trans step

theorem Replied.noted (world : World Server) (silent : ∀ books : Ledger, books.note event = books) :
    Replied world { world with log := world.log ++ [event] } :=
  ⟨rfl, rfl, fun _ _ => id, List.prefix_append _ _, by rw [ledger_snoc, silent]⟩

theorem emit_replied (silent : ∀ books : Ledger, books.note event = books) : StepsThrough Replied (emit event) :=
  .modify fun world => .noted world silent

theorem setErrno_replied (errno : Int) : StepsThrough Replied (setErrno errno) :=
  .modify fun _ => ⟨rfl, rfl, fun _ _ => id, List.prefix_rfl, rfl⟩

theorem clearClient_replied (ref : FdRef) : StepsThrough Replied (clearClient ref) := by
  intro before after left
  rcases clearClient_leaves left with rfl | ⟨fd, clientId, known, rfl⟩
  · exact .refl
  · refine .single ⟨rfl, rfl, fun _ _ remains => (clientOf_of_forget remains).2, List.prefix_append _ _, ?_⟩
    rw [cleared, unregistered, ← List.append_assoc, ledger_snoc]
    by_cases owned : fd > 2
    · rw [if_pos owned, ledger_snoc]
      rfl
    · rw [if_neg owned, List.append_nil]
      rfl

/-- The loop has come to this message. What lies before it has been passed to
its action, if it has one and its client is still known. -/
structure Underway (first : World Server) (index : Nat) (world : World Server) : Prop
    extends Retained msgs first world where
  tasks : world.object.tasks = first.object.tasks
  clients : ∀ fd clientId, world.object.clientOf fd = some clientId → first.object.clientOf fd = some clientId
  midway : (ledger first.log).Midway first.object.msgs.length 0 0 →
    (ledger world.log).Midway first.object.msgs.length index 0
  covered : ∀ earlier message fd clientId action, first.object.msgs[earlier]? = some message → earlier < index →
    message.fd = some fd → world.object.clientOf fd = some clientId →
      first.object.taskOf message.type = some action → PassedTo first (ledger world.log) earlier 0 action message

/-- An exception has left the loop. -/
structure Abandoned (first world : World Server) : Prop extends Retained msgs first world where
  tidy : (ledger first.log).Midway first.object.msgs.length 0 0 →
    (ledger world.log).Tidy first.object.msgs.length

theorem Underway.refl (first : World Server) : Underway first 0 first where
  toRetained := .refl first
  tasks := rfl
  clients _ _ := id
  midway := id
  covered _ _ _ _ _ _ before := absurd before (Nat.not_lt_zero _)

/-- A message without action or client is passed over. -/
theorem Underway.next (underway : Underway first index world) (shape : first.object.msgs[index]? = some message)
    (skipped : ∀ fd clientId action, message.fd = some fd → world.object.clientOf fd = some clientId →
      first.object.taskOf message.type ≠ some action) : Underway first (index + 1) world where
  toRetained := underway.toRetained
  tasks := underway.tasks
  clients := underway.clients
  midway fresh := (underway.midway fresh).next
  covered earlier other fd clientId action member before from_ known handled := by
    by_cases here : earlier = index
    · subst here
      rw [shape] at member
      cases member
      exact absurd handled (skipped fd clientId action from_ known)
    · exact underway.covered earlier other fd clientId action member (by omega) from_ known handled

/-- The loop hands the message it has come to to its action. -/
theorem Underway.invoked {index action : Nat} {message now : Message} (underway : Underway first index world)
    (shape : first.object.msgs[index]? = some message) (handled : first.object.taskOf message.type = some action)
    (same : message.SameContent now) (clientId : Int) (reads : Nat) :
    Underway first (index + 1)
      { world with
        object := { world.object with msgs := world.object.msgs.set index (now.readBy reads) }
        log := world.log ++ [.invoked index 0 action (some clientId) now] } := by
  constructor
  · exact underway.toRetained.invoked shape same rfl rfl
  · exact underway.tasks
  · exact underway.clients
  · intro fresh
    rw [ledger_snoc]
    exact ((underway.midway fresh).invoked action (some clientId) now).next
  · intro earlier other fd otherId task member before from_ known handles
    by_cases here : earlier = index
    · subst here
      rw [shape] at member
      cases member
      rw [handled] at handles
      cases handles
      exact underway.passedTo same rfl
    · apply (underway.covered earlier other fd otherId task member (by omega) from_ known handles).grown
      intro pass passed
      rw [ledger_snoc]
      exact List.mem_append_left _ passed

/-- Replies leave the loop where it is. -/
theorem Underway.replied (underway : Underway first index world) (replied : Replied world after) :
    Underway first index after where
  toRetained := underway.toRetained.noted replied.msgs replied.logged ⟨_, _, replied.books⟩
  tasks := replied.tasks.trans underway.tasks
  clients fd clientId known := underway.clients fd clientId (replied.clients fd clientId known)
  midway fresh := by
    rw [replied.books]
    exact underway.midway fresh
  covered earlier message fd clientId action shape before from_ known handled := by
    rw [replied.books]
    exact underway.covered earlier message fd clientId action shape before from_
      (replied.clients fd clientId known) handled

/-- Where the action of a message throws, the loop is left. -/
theorem Underway.abandoned (underway : Underway first (index + 1) world) (inside : index < first.object.msgs.length) :
    Abandoned first { world with log := world.log ++ [.threw] } where
  toRetained := underway.toRetained.noted rfl (List.prefix_append _ _) ⟨_, true, ledger_snoc ..⟩
  tidy fresh := by
    rw [ledger_snoc]
    exact (underway.midway fresh).threw inside

/-- What the normal end of such a loop leaves: an empty queue, all of it passed
as far as it has an action and its client is still known. -/
structure Dispatched (first world : World Server) : Prop extends Emptied msgs first world where
  queue : world.object.msgs = []
  tidy : (ledger first.log).Midway first.object.msgs.length 0 0 → (ledger world.log).Tidy 0
  covered : ∀ index message fd clientId action, first.object.msgs[index]? = some message →
    message.fd = some fd → world.object.clientOf fd = some clientId →
      first.object.taskOf message.type = some action → PassedTo first (ledger world.log) index 0 action message

theorem Underway.dispatched (through : Underway first first.object.msgs.length world) :
    Dispatched first
      { world with
        object := { world.object with msgs := [] }
        log := world.log ++ [.discarded] } := by
  constructor
  · exact through.toRetained.emptied rfl
  · rfl
  · intro fresh
    rw [ledger_snoc]
    exact (through.midway fresh).discarded
  · intro index message fd clientId action shape from_ known handled
    rw [ledger_snoc]
    exact through.covered index message fd clientId action shape
      (List.getElem?_eq_some_iff.mp shape).1 from_ known handled

section Loop
variable [Platform]

theorem act_replied (reaction : Reaction Reply) : StepsThrough Replied (act reaction) :=
  act_through (sendTo_through setErrno_replied (fun _ _ => emit_replied fun _ => rfl)
    (fun _ => emit_replied fun _ => rfl) clearClient_replied) reaction

/-- One action: the loop moves on, or is left with the queue as it is. -/
theorem invoke_meets {index action : Nat} {message now : Message} (underway : Underway first index world)
    (shape : first.object.msgs[index]? = some message) (handled : first.object.taskOf message.type = some action)
    (same : message.SameContent now) (clientId : Int) (reaction : Reaction Reply) :
    Meets (invoke reaction index action clientId now) world (fun _ => Underway first (index + 1))
      (Abandoned first) := by
  have handed := underway.invoked shape handled same clientId reaction.reads
  apply Meets.bind
  apply Meets.of_run (run_emit ..)
  apply Meets.bind
  apply Meets.of_run (run_alter ..)
  constructor
  · intro _ after ran
    exact handed.replied (replied_of_steps (act_replied reaction _ _ (.of_returns (noting_returns.mp ran))))
  · intro error after ran
    obtain ⟨middle, threw, rfl⟩ := noting_throws.mp ran
    have reached := handed.replied (replied_of_steps (act_replied reaction _ _ (Or.inr ⟨error, threw⟩)))
    exact reached.abandoned (List.getElem?_eq_some_iff.mp shape).1

theorem dispatchMessage_meets (react : Nat → Reaction Reply) (underway : Underway first index world)
    (shape : first.object.msgs[index]? = some message) :
    Meets (dispatchMessage react index) world (fun _ => Underway first (index + 1)) (Abandoned first) := by
  obtain ⟨now, found, same⟩ := underway.current shape
  have task : world.object.taskOf now.type = first.object.taskOf message.type := by
    rw [taskOf, underway.tasks, same.1]
    rfl
  apply Meets.bind
  apply Meets.of_run (EStateM.run_get ..)
  simp only [found, task, same.2.2]
  cases handled : first.object.taskOf message.type with
  | none => exact .pure (underway.next shape fun _ _ _ _ _ some => by rw [handled] at some; cases some)
  | some action =>
    cases from_ : message.fd with
    | none => exact .undefinedBehaviour
    | some fd =>
      cases known : world.object.clientOf fd with
      | none =>
        simp only [known]
        apply Meets.pure
        apply underway.next shape
        intro other clientId task sender registered
        cases from_.symm.trans sender
        rw [known] at registered
        cases registered
      | some clientId =>
        simp only [known]
        exact invoke_meets underway shape handled same clientId (react index)

theorem dispatchFrom_meets (react : Nat → Reaction Reply)
    (inside : index + remaining ≤ first.object.msgs.length) (underway : Underway first index world) :
    Meets (dispatchFrom react index remaining) world
      (fun _ => Underway first (index + remaining)) (Abandoned first) := by
  induction remaining generalizing index world with
  | zero => exact .pure underway
  | succ remaining ih =>
    have here : index < first.object.msgs.length := by omega
    apply Meets.bind
    apply (dispatchMessage_meets react underway (List.getElem?_eq_getElem here)).mono
    · intro _ middle moved
      have through := ih (by omega) moved
      rwa [Nat.add_assoc, Nat.add_comm 1] at through
    · exact fun _ => id

/-- The whole second half of `update`. -/
theorem dispatch_meets (react : Nat → Reaction Reply) (world : World Server) :
    Meets (dispatch react) world
      (fun _ => Dispatched { world with log := world.log ++ [.dispatching] })
      (Abandoned { world with log := world.log ++ [.dispatching] }) := by
  apply Meets.bind
  apply Meets.of_run (run_emit ..)
  apply Meets.bind
  apply Meets.of_run (EStateM.run_get ..)
  apply Meets.bind
  apply (dispatchFrom_meets react (Nat.zero_add _).le (Underway.refl _)).mono
  · intro _ middle through
    rw [Nat.zero_add] at through
    apply Meets.bind
    apply Meets.of_run (run_emit ..)
    exact Meets.of_run (run_alter ..) through.dispatched
  · exact fun _ => id

end Loop

end Server
end Libftpp
