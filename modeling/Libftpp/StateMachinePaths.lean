import Libftpp.StateMachine

/-! Lambdas that call the state machine they belong to. `transitionTo` looks its
transition up in the state it is called in and writes the new state when the
lambda has returned, wherever that lambda has moved the machine in between and
whatever it has made of the target. So the states visited follow registered
transitions as long as the lambdas that return have disturbed neither, and
beyond that only by chance. -/
namespace Libftpp.StateMachine
open Program

variable {TState Lambda : Type}

/-- What a lambda does in one invocation, as far as the machine can tell: it
ends, or it calls a member function, which may invoke a lambda in turn, and goes
on knowing whether the call has thrown. -/
inductive Script (TState Lambda : Type) where
  | returns
  | throws (error : StateMachineExn)
  | calls (operation : Operation TState Lambda) (inside : Lambda → Script TState Lambda)
      (next : Except StateMachineExn Unit → Script TState Lambda)

/-- The assignment leads along a registered transition, if it changes the state. -/
def Mark.AlongTransition : Mark TState Lambda → Prop
  | .assigned before state => before.currentS ≠ state → (before.currentS, state) ∈ before.transitions
  | _ => True

/-- A lambda that returns has left the machine in the state it was called in, and
its caller's target as it was; and no state is declared as the first one. -/
def Mark.Undisturbed : Mark TState Lambda → Prop
  | .returned called target before state => before.currentS = called ∧ state = target
  | .first _ _ => False
  | .assigned _ _ => True

/-- If anything has been disturbed, there is a way on from where the machine is all
the same. -/
def Mark.OnTheWay : Mark TState Lambda → Prop
  | .returned called target before state => (Mark.returned called target before state).Undisturbed ∨
      before.currentS = state ∨ (before.currentS, state) ∈ before.transitions
  | .first before state => before.currentS = state ∨ (before.currentS, state) ∈ before.transitions
  | .assigned _ _ => True

theorem Mark.Undisturbed.onTheWay {mark : Mark TState Lambda} (undisturbed : mark.Undisturbed) : mark.OnTheWay := by
  cases mark with
  | returned called target before state => exact Or.inl undisturbed
  | first before state => exact undisturbed.elim
  | assigned before state => trivial

/-- What every call does to the marks and to the transitions: it adds marks whose
assignments follow transitions exactly if the lambdas stay on the way, and it
removes no transition. -/
structure Extends (before after : Traced TState Lambda) : Prop where
  marks : ∃ added, after.marks = before.marks ++ added ∧
    ((∀ mark ∈ added, mark.AlongTransition) ↔ ∀ mark ∈ added, mark.OnTheWay)
  kept : ∀ key ∈ before.machine.transitions, key ∈ after.machine.transitions

theorem Extends.refl (traced : Traced TState Lambda) : Extends traced traced :=
  ⟨⟨[], by simp⟩, fun _ member => member⟩

theorem Extends.trans {first second third : Traced TState Lambda}
    (one : Extends first second) (two : Extends second third) : Extends first third := by
  obtain ⟨added, shape, along⟩ := one.marks
  obtain ⟨more, shape', along'⟩ := two.marks
  refine ⟨⟨added ++ more, by rw [shape', shape, List.append_assoc], ?_⟩,
    fun key member => two.kept key (one.kept key member)⟩
  simp only [List.forall_mem_append, along, along']

variable [DecidableEq TState]

/-- A lambda's invocation. -/
def Script.play : Script TState Lambda → Member TState Lambda Unit
  | .returns => pure ()
  | .throws error => raise error
  | .calls operation inside next => do
    let result ← caught (perform (fun lambda => (inside lambda).play) operation)
    (next result).play

/-- Coming from a registered transition, the machine arrives along one exactly
if the lambda has left it on the way. -/
theorem Extends.arrive {traced : Traced TState Lambda} (registered : (called, target) ∈ traced.machine.transitions) :
    Extends traced (traced.arrive called target state) := by
  refine ⟨⟨_, rfl, ?_⟩, fun _ member => member⟩
  simp only [List.forall_mem_cons, Mark.AlongTransition, Mark.OnTheWay, Mark.Undisturbed, List.not_mem_nil,
    IsEmpty.forall_iff, implies_true, and_true, true_and]
  constructor
  · intro along
    by_cases there : traced.machine.currentS = state
    · exact Or.inr (Or.inl there)
    · exact Or.inr (Or.inr (along there))
  · rintro (⟨stayed, rfl⟩ | there | way) changes
    · rw [stayed]
      exact registered
    · exact absurd there changes
    · exact way

/-- Every call ends and extends the trace, if the lambdas it may invoke do. -/
theorem perform_extends {invoke : Lambda → Member TState Lambda Unit}
    (ends : ∀ lambda before, ∃ after, Leaves (invoke lambda) before after ∧ Extends before after)
    (operation : Operation TState Lambda) (before : Traced TState Lambda) :
    ∃ after, Leaves (perform invoke operation) before after ∧ Extends before after := by
  cases operation with
  | addState state =>
    by_cases none : before.machine.states = ∅
    · refine ⟨_, .of_returns (addState_begins none state), ⟨_, rfl, ?_⟩, fun _ member => member⟩
      simp only [List.forall_mem_cons, Mark.AlongTransition, Mark.OnTheWay, or_iff_not_imp_left, List.not_mem_nil,
        IsEmpty.forall_iff, implies_true, and_true, true_and, ne_eq]
    · exact ⟨_, .of_returns (addState_extends none state), ⟨[], by simp⟩, fun _ member => member⟩
  | addTransition startState finalState lambda =>
    by_cases known : startState ∈ before.machine.states
    · exact ⟨_, .of_returns (addTransition_connects known finalState lambda), ⟨[], by simp⟩,
        fun _ member => (AList.mem_insert ..).mpr (Or.inr member)⟩
    · exact ⟨before, Or.inr ⟨_, addTransition_refuses known finalState lambda⟩, .refl before⟩
  | addAction state lambda =>
    exact ⟨{ before with machine := { before.machine with
      actions := before.machine.actions.insert state lambda } }, .of_returns rfl, ⟨[], by simp⟩,
      fun _ member => member⟩
  | transitionTo state later =>
    cases found : before.machine.transitions.lookup (before.machine.currentS, state) with
    | none => exact ⟨before, Or.inr ⟨_, transitionTo_refuses found⟩, .refl before⟩
    | some lambda =>
      obtain ⟨middle, left, grows⟩ := ends lambda before
      have looked : (before.machine.currentS, state) ∈ before.machine.transitions :=
        AList.lookup_isSome.mp (Option.isSome_iff_exists.mpr ⟨lambda, found⟩)
      rcases left with ⟨_, ran⟩ | ⟨error, ran⟩
      · -- the lambda has removed no transition, so the one looked up is still there
        have registered := grows.kept _ looked
        exact ⟨middle.arrive before.machine.currentS state later,
          Or.inl ⟨(), by simp only [perform, transitionTo_run found, ran]⟩, grows.trans (.arrive registered)⟩
      · exact ⟨middle, Or.inr ⟨error, by simp only [perform, transitionTo_run found, ran]⟩, grows⟩
  | update =>
    cases found : before.machine.actions.lookup before.machine.currentS with
    | none => exact ⟨before, Or.inr ⟨_, update_refuses found⟩, .refl before⟩
    | some lambda =>
      obtain ⟨after, left, grows⟩ := ends lambda before
      refine ⟨after, ?_, grows⟩
      unfold Leaves at left ⊢
      simp only [perform, update_run found]
      exact left

/-- Every lambda ends and extends the trace, however deep its calls are nested. -/
theorem Script.play_extends (script : Script TState Lambda) (before : Traced TState Lambda) :
    ∃ after, Leaves script.play before after ∧ Extends before after := by
  induction script generalizing before with
  | returns => exact ⟨before, .of_returns rfl, .refl before⟩
  | throws error => exact ⟨before, Or.inr ⟨error, rfl⟩, .refl before⟩
  | calls operation inside next ihInside ihNext =>
    obtain ⟨middle, left, grows⟩ := perform_extends ihInside operation before
    obtain ⟨result, ran⟩ : ∃ result, (caught (perform (fun lambda => (inside lambda).play) operation)).run before =
        .ok result middle := by
      rcases left with ⟨_, ran⟩ | ⟨error, ran⟩
      · exact ⟨_, caught_value ran⟩
      · exact ⟨_, caught_error ran⟩
    obtain ⟨after, rest, more⟩ := ihNext result middle
    refine ⟨after, ?_, grows.trans more⟩
    unfold Leaves
    simp only [Script.play, EStateM.run_bind, ran]
    exact rest

/-- Every call of a machine in any state ends, whatever lambdas it invokes do and
however deep they call the machine. If no lambda that returns has disturbed the
call it belongs to, every assignment follows a registered transition; and it does
exactly if there is a way on wherever one has. -/
theorem visited_path_iff (machine : StateMachine TState Lambda) (operation : Operation TState Lambda)
    (inside : Lambda → Script TState Lambda) :
    ∃ after, Leaves (perform (fun lambda => (inside lambda).play) operation) ⟨machine, []⟩ after ∧
      ((∀ mark ∈ after.marks, mark.Undisturbed) → ∀ mark ∈ after.marks, mark.AlongTransition) ∧
      ((∀ mark ∈ after.marks, mark.AlongTransition) ↔ ∀ mark ∈ after.marks, mark.OnTheWay) := by
  obtain ⟨after, left, grows⟩ := perform_extends (fun lambda => (inside lambda).play_extends) operation ⟨machine, []⟩
  obtain ⟨added, shape, along⟩ := grows.marks
  refine ⟨after, left, ?_⟩
  rw [shape]
  exact ⟨fun undisturbed => along.mpr fun mark member => (undisturbed mark member).onTheWay, along⟩

/-- Three states, with transitions from the first to each of the others. -/
def forked : List (Step Nat Nat) :=
  [⟨.addState 0, fun _ => none⟩, ⟨.addState 1, fun _ => none⟩, ⟨.addState 2, fun _ => none⟩,
    ⟨.addTransition 0 1 1, fun _ => none⟩, ⟨.addTransition 0 2 2, fun _ => none⟩]

/-- What the lambdas of these transitions do: the first one makes the other
transition. -/
def detour : Nat → Script Nat Nat
  | 1 => .calls (.transitionTo 2 2) (fun _ => .returns) fun _ => .returns
  | _ => .returns

/-- The lambda of the transition from 0 to 1 moves the machine to 2, and on its
return the state goes from 2 to 1, for which there is no transition. -/
theorem assigned_off_the_path : ∃ built after : Traced Nat Nat, Reaches 0 forked built ∧
    Leaves (perform (fun lambda => (detour lambda).play) (.transitionTo 1 1)) ⟨built.machine, []⟩ after ∧
      ∃ before, Mark.assigned before 1 ∈ after.marks ∧ before.currentS = 2 ∧
        (before.currentS, 1) ∉ before.transitions :=
  ⟨_, _, rfl, .of_returns rfl, _, .tail _ (.tail _ (.tail _ (.head _))), rfl, by decide⟩

end Libftpp.StateMachine
