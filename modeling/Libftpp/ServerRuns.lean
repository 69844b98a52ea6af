import Libftpp.ServerDispatch
import Libftpp.ServerIntake

/-! Runs of a server, seen from its queue. Outside the dispatch loop a call only
adds messages or drops them all, so between two calls the account of the log
agrees with the queue. -/
namespace Libftpp
open Program World

namespace Server

/-- What holds of a server between two calls. -/
structure Sound (world : World Server) : Prop where
  drained : world.object.Drained
  tidy : NoDispatchAfterThrow world.log → (ledger world.log).Tidy world.object.msgs.length

theorem tidy_of_beside {before after : World Server}
    (tidy : (ledger before.log).Tidy before.object.msgs.length) (same : after.object.msgs = before.object.msgs)
    (books : ∃ interrupted, ledger after.log = { ledger before.log with interrupted } ∧
      (interrupted = false → (ledger before.log).interrupted = false)) :
    (ledger after.log).Tidy after.object.msgs.length := by
  obtain ⟨interrupted, books, calm⟩ := books
  rw [books, same]
  exact tidy.beside calm

theorem tidy_of_stopped {world : World Server} (tidy : (ledger world.log).Tidy world.object.msgs.length) :
    (ledger (stopped world).log).Tidy (stopped world).object.msgs.length := by
  have books : ledger (stopped world).log = (ledger world.log).note .discarded := ledger_closing ..
  rw [books]
  exact tidy.discarded

/-- What happens outside the dispatch loop. -/
theorem Intake.tidy [Platform] {before after : World Server} (intake : Intake before events fresh after)
    (tidy : (ledger before.log).Tidy before.object.msgs.length) :
    (ledger after.log).Tidy after.object.msgs.length := by
  constructor
  · rw [intake.waiting, intake.queue, List.length_append, tidy.counted]
  · rw [Ledger.AtMostOnce, intake.passes]
    exact tidy.once
  · rw [intake.passes, intake.dropped, intake.queue, List.length_append]
    intro pass member
    have bound := tidy.known pass member
    omega
  · rw [intake.passes, intake.dropped]
    exact fun still => tidy.gone (intake.calm still)

theorem Sound.steps [Platform] (sound : Sound before) (steps : Relation.ReflTransGen Step before after) : Sound after := by
  obtain ⟨⟨events, fresh, intake⟩, drained⟩ := intake_of_steps sound.drained steps
  refine ⟨drained, fun calm => intake.tidy (sound.tidy (calm.before ?_))⟩
  rw [intake.logged]
  exact List.prefix_append _ _

theorem Sound.start (sound : Sound before) (exit : StartExit before after) : Sound after := by
  refine ⟨exit.drained sound.drained, fun calm => ?_⟩
  have tidy := sound.tidy (calm.before exit.logged)
  cases exit with
  | unopened errno => exact tidy
  | gaveUp fd maxFd errno active plain =>
    apply tidy_of_stopped
    exact tidy_of_beside tidy rfl (ledger_beside (beside_opening fd plain) before.log)
  | listening fd errno selectable plain =>
    exact tidy_of_beside tidy rfl (ledger_beside (beside_listening fd plain) before.log)

/-- A dispatch loop that may start finds nothing in the queue that was passed before. -/
theorem Sound.midway (sound : Sound world) (calm : NoDispatchAfterThrow after)
    (logged : world.log ++ [.dispatching] <+: after) :
    (ledger (world.log ++ [.dispatching])).Midway world.object.msgs.length 0 0 := by
  have started : NoDispatchAfterThrow (world.log ++ [.dispatching]) := calm.before logged
  rw [ledger_snoc]
  exact (sound.tidy (started.before (List.prefix_append _ _))).dispatching (started.last rfl)

section Calls
variable [Platform]

theorem dispatch_sound (sound : Sound world) (left : Leaves (dispatch react) world after) : Sound after := by
  refine ⟨turns_drained (dispatch_turns react _ _ left) sound.drained, ?_⟩
  apply (@Meets.leaves _ _ _ _ (fun after => NoDispatchAfterThrow after.log →
    (ledger after.log).Tidy after.object.msgs.length)) _ left
  apply (dispatch_meets react world).mono
  · intro _ after dispatched calm
    rw [dispatched.queue]
    exact dispatched.tidy (sound.midway calm dispatched.logged)
  · intro after abandoned calm
    rw [← abandoned.alike.length_eq]
    exact abandoned.tidy (sound.midway calm abandoned.logged)

theorem update_sound (sound : Sound before) (left : Leaves (update rounds last react) before after) :
    Sound after := by
  have begun : Sound { before with object := { before.object with running := true } } :=
    sound.steps (.single (.quiet rfl rfl))
  replace left := left.past (run_alter ..)
  rcases left.bind with left | ⟨ended, selected, ran, left⟩
  · exact begun.steps (selectLoop_steps last rounds _ _ left)
  · have kept := begun.steps (selectLoop_steps last rounds _ _ (.of_returns ran))
    rcases left.ite with ⟨_, left⟩ | ⟨_, left⟩
    · exact dispatch_sound kept left
    · rcases left with ⟨_, ran⟩ | ⟨_, ran⟩ <;> cases ran
      exact kept

theorem perform_sound (operation : Operation) (sound : Sound before)
    (left : Leaves (perform operation) before after) : Sound after := by
  cases operation with
  | start script port => exact sound.start (start_exits left)
  | accept result => exact sound.steps (acceptNewConnection_steps result _ _ left)
  | receive fd script => exact sound.steps (receive_steps fd script _ _ left)
  | remove fd => exact sound.steps (clearClient_steps (.value fd) _ _ left)
  | defineAction messageType action =>
    rcases left with ⟨_, ran⟩ | ⟨_, ran⟩ <;> cases ran
    exact ⟨sound.drained, sound.tidy⟩
  | sendTo message clientId result => exact sound.steps (sendTo_steps message clientId result _ _ left)
  | sendToArray message clientIds => exact sound.steps (sendToArray_steps message clientIds _ _ left)
  | update rounds last react => exact update_sound sound left
  | stop =>
    rcases left with ⟨_, ran⟩ | ⟨_, ran⟩ <;> cases (stop_run before).symm.trans ran
    exact ⟨drained_of_none rfl, fun calm => tidy_of_stopped (sound.tidy (calm.before (List.prefix_append _ _)))⟩

omit [Platform] in
theorem Sound.new (address : String) (port : UInt64) (active readyRead : FdSet) (errno : Int) :
    Sound ⟨.new address port active readyRead, errno, []⟩ :=
  ⟨drained_of_none rfl, fun _ => .start⟩

/-- Any number of calls. -/
theorem run_sound (operations : List Operation) (sound : Sound before)
    (ran : (inTurn (operations.map perform)).run before = .ok () after) : Sound after :=
  inTurn_keeps (fun operation _ _ holds left => perform_sound operation holds left) sound ran

end Calls

end Server
end Libftpp
