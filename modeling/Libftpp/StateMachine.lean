import Mathlib.Data.List.AList
import Mathlib.Data.Finset.Basic
import Libftpp.Program

/-! The state machine (`state_machine.hpp`): a current state, the set of declared
states, one action per state and one lambda per transition. What a registered
lambda does when it is invoked is an input. `addTransition` looks for its start
state twice and for its final state never, and `transitionTo` reads its target
again after the lambda, which may have changed it; so the machine may be led out
of the declared states. As long as neither happens, it never leaves them. -/
namespace Libftpp
open Program

/-- The exceptions of a state machine, and those its lambdas let through. -/
inductive StateMachineExn where
  | invalidArgument (what : String)
  | fromLambda (what : String)
  deriving DecidableEq, Repr

/-- `class StateMachine`. `Lambda` stands for `std::function<void()>`. -/
structure StateMachine (TState Lambda : Type) where
  currentS : TState
  states : Finset TState
  actions : AList fun _ : TState => Lambda
  transitions : AList fun _ : TState × TState => Lambda

namespace StateMachine
variable {TState Lambda : Type}

/-- What a run shows of the current state: a transition's lambda, called in one
state on the way to another, has returned and left this machine and this target
behind; `addState` finds this machine without states; `_currentS = state` is
executed in this machine. -/
inductive Mark (TState Lambda : Type) where
  | returned (called target : TState) (before : StateMachine TState Lambda) (state : TState)
  | first (before : StateMachine TState Lambda) (state : TState)
  | assigned (before : StateMachine TState Lambda) (state : TState)

/-- A machine and the marks of its run. No modelled function reads the marks. -/
structure Traced (TState Lambda : Type) where
  machine : StateMachine TState Lambda
  marks : List (Mark TState Lambda)

/-- A member function, or a lambda that may call some. -/
abbrev Member (TState Lambda α : Type) := Program StateMachineExn (Traced TState Lambda) α

/-- A machine as its constructor leaves it; `_currentS` may be indeterminate. -/
def fresh (currentS : TState) : StateMachine TState Lambda := ⟨currentS, ∅, ∅, ∅⟩

/-- Adds a mark made from the machine as it is. -/
def mark (make : StateMachine TState Lambda → Mark TState Lambda) : Member TState Lambda Unit :=
  modify fun traced => { traced with marks := traced.marks ++ [make traced.machine] }

/-- Changes the machine. -/
def alter (change : StateMachine TState Lambda → StateMachine TState Lambda) : Member TState Lambda Unit :=
  modify fun traced => { traced with machine := change traced.machine }

@[simp] theorem run_mark (make : StateMachine TState Lambda → Mark TState Lambda) (traced : Traced TState Lambda) :
    (mark make).run traced = .ok () { traced with marks := traced.marks ++ [make traced.machine] } := rfl

@[simp] theorem run_alter (change : StateMachine TState Lambda → StateMachine TState Lambda)
    (traced : Traced TState Lambda) :
    (alter change).run traced = .ok () { traced with machine := change traced.machine } := rfl

/-- `_currentS = state`. -/
def assign (state : TState) : Member TState Lambda Unit := do
  mark (.assigned · state)
  alter fun machine => { machine with currentS := state }

/-- A lambda that returns, or throws, and leaves the machine alone. -/
def leaveAlone : Option StateMachineExn → Member TState Lambda Unit
  | none => pure ()
  | some error => raise error

theorem leaveAlone_returns {ending : Option StateMachineExn} {before after : Traced TState Lambda}
    (ran : (leaveAlone ending).run before = .ok () after) : ending = none ∧ after = before := by
  cases ending <;> cases ran
  exact ⟨rfl, rfl⟩

theorem leaveAlone_leaves {ending : Option StateMachineExn} {before after : Traced TState Lambda}
    (left : Leaves (leaveAlone ending) before after) : after = before := by
  cases ending <;> rcases left with ⟨_, ran⟩ | ⟨_, ran⟩ <;> cases ran <;> rfl

/-- Once there are states, the current one is among them, and so are both ends of
every transition. -/
def Declared (machine : StateMachine TState Lambda) : Prop :=
  machine.states ≠ ∅ →
    machine.currentS ∈ machine.states ∧
      ∀ key ∈ machine.transitions, key.1 ∈ machine.states ∧ key.2 ∈ machine.states

/-- The invariant: the current state and all ends of transitions are declared. -/
structure Closed (machine : StateMachine TState Lambda) : Prop where
  current : machine.states ≠ ∅ → machine.currentS ∈ machine.states
  ends : ∀ key ∈ machine.transitions, key.1 ∈ machine.states ∧ key.2 ∈ machine.states

theorem Closed.declared {machine : StateMachine TState Lambda} (closed : machine.Closed) : machine.Declared :=
  fun used => ⟨closed.current used, closed.ends⟩

theorem fresh_closed (currentS : TState) : (fresh currentS : StateMachine TState Lambda).Closed where
  current used := absurd rfl used
  ends _ member := absurd member (AList.notMem_empty _)

variable [DecidableEq TState]

/-- `StateMachine::addState`. -/
def addState (state : TState) : Member TState Lambda Unit := do
  let traced ← get
  if traced.machine.states = ∅ then
    mark (.first · state)
    assign state
  alter fun machine => { machine with states := insert state machine.states }

/-- `StateMachine::addTransition`. Both halves of the test are about `startState`. -/
def addTransition (startState finalState : TState) (lambda : Lambda) : Member TState Lambda Unit := do
  let traced ← get
  if startState ∉ traced.machine.states ∨ startState ∉ traced.machine.states then
    raise (.invalidArgument "Invalid State")
  else
    alter fun machine => { machine with transitions := machine.transitions.insert (startState, finalState) lambda }

/-- `StateMachine::addAction`. -/
def addAction (state : TState) (lambda : Lambda) : Member TState Lambda Unit :=
  alter fun machine => { machine with actions := machine.actions.insert state lambda }

/-- `StateMachine::transitionTo`. The transition is looked up before its lambda
runs, and the state is written after it has returned. The parameter is a
reference: `later` is what the caller's variable holds by then. -/
def transitionTo (state later : TState) (invoke : Lambda → Member TState Lambda Unit) :
    Member TState Lambda Unit := do
  let traced ← get
  match traced.machine.transitions.lookup (traced.machine.currentS, state) with
  | none => raise (.invalidArgument "No transition found")
  | some lambda =>
    invoke lambda
    mark (.returned traced.machine.currentS state · later)
    assign later

/-- `StateMachine::update`. -/
def update (invoke : Lambda → Member TState Lambda Unit) : Member TState Lambda Unit := do
  let traced ← get
  match traced.machine.actions.lookup traced.machine.currentS with
  | none => raise (.invalidArgument "No action found")
  | some lambda => invoke lambda

/-- The calls a machine offers. What `transitionTo` finds in its parameter later
on is part of the call. -/
inductive Operation (TState Lambda : Type) where
  | addState (state : TState)
  | addTransition (startState finalState : TState) (lambda : Lambda)
  | addAction (state : TState) (lambda : Lambda)
  | transitionTo (state later : TState)
  | update

/-- Performs a call, given what the lambda it invokes does. -/
def perform (invoke : Lambda → Member TState Lambda Unit) : Operation TState Lambda → Member TState Lambda Unit
  | .addState state => addState state
  | .addTransition startState finalState lambda => addTransition startState finalState lambda
  | .addAction state lambda => addAction state lambda
  | .transitionTo state later => transitionTo state later invoke
  | .update => update invoke

/-! ### How each call can end -/

theorem addState_begins {traced : Traced TState Lambda} (none : traced.machine.states = ∅) (state : TState) :
    (addState state).run traced =
      .ok () ⟨{ traced.machine with currentS := state, states := insert state traced.machine.states },
        traced.marks ++ [.first traced.machine state, .assigned traced.machine state]⟩ := by
  simp [addState, assign, none]

theorem addState_extends {traced : Traced TState Lambda} (used : traced.machine.states ≠ ∅) (state : TState) :
    (addState state).run traced =
      .ok () ⟨{ traced.machine with states := insert state traced.machine.states }, traced.marks⟩ := by
  simp [addState, used]

theorem addTransition_connects {traced : Traced TState Lambda} {startState : TState}
    (known : startState ∈ traced.machine.states) (finalState : TState) (lambda : Lambda) :
    (addTransition startState finalState lambda).run traced =
      .ok () ⟨{ traced.machine with
        transitions := traced.machine.transitions.insert (startState, finalState) lambda }, traced.marks⟩ := by
  simp [addTransition, known]

theorem addTransition_refuses {traced : Traced TState Lambda} {startState : TState}
    (unknown : startState ∉ traced.machine.states) (finalState : TState) (lambda : Lambda) :
    (addTransition startState finalState lambda).run traced =
      .error (.thrown (.invalidArgument "Invalid State")) traced := by
  simp [addTransition, unknown]

/-- The traced machine after `_currentS = state`, coming from a transition to
`target` that was looked up in the state `called`. -/
def Traced.arrive (traced : Traced TState Lambda) (called target state : TState) : Traced TState Lambda :=
  ⟨{ traced.machine with currentS := state },
    traced.marks ++ [.returned called target traced.machine state, .assigned traced.machine state]⟩

theorem transitionTo_refuses {invoke : Lambda → Member TState Lambda Unit} {state later : TState}
    (none : before.machine.transitions.lookup (before.machine.currentS, state) = none) :
    (transitionTo state later invoke).run before =
      .error (.thrown (.invalidArgument "No transition found")) before := by
  simp [transitionTo, none]

/-- The state is written, in the machine the lambda leaves behind, if it returns. -/
theorem transitionTo_run {invoke : Lambda → Member TState Lambda Unit} {state later : TState}
    (found : before.machine.transitions.lookup (before.machine.currentS, state) = some lambda) :
    (transitionTo state later invoke).run before =
      match (invoke lambda).run before with
      | .ok _ middle => .ok () (middle.arrive before.machine.currentS state later)
      | .error halt middle => .error halt middle := by
  simp only [transitionTo, EStateM.run_bind, EStateM.run_get, found]
  cases (invoke lambda).run before <;> simp [assign, Traced.arrive]

theorem update_refuses {invoke : Lambda → Member TState Lambda Unit}
    (none : before.machine.actions.lookup before.machine.currentS = none) :
    (update invoke).run before = .error (.thrown (.invalidArgument "No action found")) before := by
  simp [update, none]

theorem update_run {invoke : Lambda → Member TState Lambda Unit}
    (found : before.machine.actions.lookup before.machine.currentS = some lambda) :
    (update invoke).run before = (invoke lambda).run before := by
  simp [update, found]

/-- Without a transition nothing happens; else its lambda throws, or it returns
and the state is written. -/
theorem transitionTo_leaves {invoke : Lambda → Member TState Lambda Unit} {state later : TState}
    (left : Leaves (transitionTo state later invoke) before after) :
    after = before ∨ ∃ lambda middle, before.machine.transitions.lookup (before.machine.currentS, state) = some lambda ∧
      ((∃ error, (invoke lambda).run before = .error (.thrown error) middle) ∧ after = middle ∨
        (invoke lambda).run before = .ok () middle ∧ after = middle.arrive before.machine.currentS state later) := by
  cases found : before.machine.transitions.lookup (before.machine.currentS, state) with
  | none =>
    rcases left with ⟨_, ran⟩ | ⟨_, ran⟩ <;> cases (transitionTo_refuses found).symm.trans ran
    exact Or.inl rfl
  | some lambda =>
    refine Or.inr ⟨lambda, ?_⟩
    rcases left with ⟨_, ran⟩ | ⟨error, ran⟩
    all_goals
      rw [transitionTo_run found] at ran
      split at ran <;> cases ran
    · exact ⟨_, rfl, Or.inr ⟨‹_›, rfl⟩⟩
    · exact ⟨after, rfl, Or.inl ⟨⟨error, ‹_›⟩, rfl⟩⟩

/-- Without an action nothing happens; else the action runs. -/
theorem update_leaves {invoke : Lambda → Member TState Lambda Unit} (left : Leaves (update invoke) before after) :
    after = before ∨ ∃ lambda, Leaves (invoke lambda) before after := by
  cases found : before.machine.actions.lookup before.machine.currentS with
  | none =>
    rcases left with ⟨_, ran⟩ | ⟨_, ran⟩ <;> cases (update_refuses found).symm.trans ran
    exact Or.inl rfl
  | some lambda =>
    unfold Leaves at left
    rw [update_run found] at left
    exact Or.inr ⟨lambda, left⟩

/-! ### Lambdas that do not touch the machine -/

/-- A call, with the ends of the lambdas it may invoke. -/
structure Step (TState Lambda : Type) where
  operation : Operation TState Lambda
  ending : Lambda → Option StateMachineExn

/-- The call of a step. -/
def Step.run (step : Step TState Lambda) : Member TState Lambda Unit :=
  perform (fun lambda => leaveAlone (step.ending lambda)) step.operation

/-- The state a run of calls, whose exceptions are caught, reaches on a new
machine. -/
def Reaches (currentS : TState) (steps : List (Step TState Lambda)) (reached : Traced TState Lambda) : Prop :=
  (inTurn (steps.map Step.run)).run ⟨fresh currentS, []⟩ = .ok () reached

/-- A call that registers a transition from a declared state does so to a
declared state, and one whose lambda returns finds its target unchanged or
replaced by a declared state. -/
def Step.EndsDeclared (step : Step TState Lambda) (machine : StateMachine TState Lambda) : Prop :=
  match step.operation with
  | .addTransition startState finalState _ => startState ∈ machine.states → finalState ∈ machine.states
  | .transitionTo state later => ∀ lambda, machine.transitions.lookup (machine.currentS, state) = some lambda →
      step.ending lambda = none → later = state ∨ later ∈ machine.states
  | _ => True

/-! ### What one call does -/

/-- What a call may turn a machine into, if lambdas leave it alone. -/
inductive Changes (machine : StateMachine TState Lambda) :
    Step TState Lambda → StateMachine TState Lambda → Prop where
  | nothing : Changes machine step machine
  | begun (fresh : machine.states = ∅) : Changes machine ⟨.addState state, ending⟩
      { machine with currentS := state, states := insert state machine.states }
  | extended (used : machine.states ≠ ∅) :
      Changes machine ⟨.addState state, ending⟩ { machine with states := insert state machine.states }
  | connected (known : startState ∈ machine.states) :
      Changes machine ⟨.addTransition startState finalState lambda, ending⟩
        { machine with transitions := machine.transitions.insert (startState, finalState) lambda }
  | equipped : Changes machine ⟨.addAction state lambda, ending⟩
      { machine with actions := machine.actions.insert state lambda }
  | moved (found : machine.transitions.lookup (machine.currentS, state) = some lambda)
      (returns : ending lambda = none) :
      Changes machine ⟨.transitionTo state later, ending⟩ { machine with currentS := later }

theorem Step.changes {step : Step TState Lambda} {before after : Traced TState Lambda}
    (left : Leaves step.run before after) : Changes before.machine step after.machine := by
  obtain ⟨operation, ending⟩ := step
  cases operation with
  | addState state =>
    by_cases none : before.machine.states = ∅
    · rcases left with ⟨_, ran⟩ | ⟨_, ran⟩ <;> cases (addState_begins none state).symm.trans ran
      exact .begun none
    · rcases left with ⟨_, ran⟩ | ⟨_, ran⟩ <;> cases (addState_extends none state).symm.trans ran
      exact .extended none
  | addTransition startState finalState lambda =>
    by_cases known : startState ∈ before.machine.states
    · rcases left with ⟨_, ran⟩ | ⟨_, ran⟩ <;>
        cases (addTransition_connects known finalState lambda).symm.trans ran
      exact .connected known
    · rcases left with ⟨_, ran⟩ | ⟨_, ran⟩ <;>
        cases (addTransition_refuses known finalState lambda).symm.trans ran
      exact .nothing
  | addAction state lambda =>
    rcases left with ⟨_, ran⟩ | ⟨_, ran⟩ <;> cases ran
    exact .equipped
  | transitionTo state later =>
    rcases transitionTo_leaves left with rfl | ⟨lambda, middle, found, ⟨threw, rfl⟩ | ⟨ran, rfl⟩⟩
    · exact .nothing
    · obtain ⟨error, threw⟩ := threw
      rw [leaveAlone_leaves (Or.inr ⟨error, threw⟩)]
      exact .nothing
    · obtain ⟨returns, rfl⟩ := leaveAlone_returns ran
      exact .moved found returns
  | update =>
    rcases update_leaves left with rfl | ⟨lambda, alone⟩
    · exact .nothing
    · rw [leaveAlone_leaves alone]
      exact .nothing

/-! ### Every run -/

theorem Closed.step {machine changed : StateMachine TState Lambda} {step : Step TState Lambda} (closed : machine.Closed)
    (changes : Changes machine step changed) (ends : step.EndsDeclared machine) : changed.Closed := by
  cases changes with
  | nothing => exact closed
  | begun none =>
    refine ⟨fun _ => Finset.mem_insert_self .., fun key member => ?_⟩
    exact (closed.ends key member).imp Finset.mem_insert_of_mem Finset.mem_insert_of_mem
  | extended used =>
    refine ⟨fun _ => Finset.mem_insert_of_mem (closed.current used), fun key member => ?_⟩
    exact (closed.ends key member).imp Finset.mem_insert_of_mem Finset.mem_insert_of_mem
  | connected known =>
    refine ⟨closed.current, fun key member => ?_⟩
    rcases (AList.mem_insert ..).mp member with rfl | member
    · exact ⟨known, ends known⟩
    · exact closed.ends key member
  | equipped => exact ⟨closed.current, closed.ends⟩
  | moved found returns =>
    refine ⟨fun _ => ?_, closed.ends⟩
    rcases ends _ found returns with rfl | declared
    · exact (closed.ends _ (AList.lookup_isSome.mp (Option.isSome_iff_exists.mpr ⟨_, found⟩))).2
    · exact declared

/-- Where a transition starts is always declared. -/
def Anchored (machine : StateMachine TState Lambda) : Prop := ∀ key ∈ machine.transitions, key.1 ∈ machine.states

theorem Anchored.step {machine changed : StateMachine TState Lambda} {step : Step TState Lambda}
    (anchored : machine.Anchored) (changes : Changes machine step changed) : changed.Anchored := by
  cases changes with
  | begun none => exact fun key member => Finset.mem_insert_of_mem (anchored key member)
  | extended used => exact fun key member => Finset.mem_insert_of_mem (anchored key member)
  | connected known =>
    intro key member
    rcases (AList.mem_insert ..).mp member with rfl | member
    · exact known
    · exact anchored key member
  | _ => exact anchored

theorem reaches_snoc_iff {currentS : TState} {steps : List (Step TState Lambda)} {step : Step TState Lambda} :
    Reaches currentS (steps ++ [step]) reached ↔
      ∃ before, Reaches currentS steps before ∧ Leaves step.run before reached := by
  unfold Reaches
  rw [List.map_append, inTurn_append]
  constructor
  · rintro ⟨before, first, last⟩
    obtain ⟨_, left, ran⟩ := inTurn_cons last
    cases ran
    exact ⟨before, first, left⟩
  · rintro ⟨before, first, left⟩
    exact ⟨before, first, inTurn_single left⟩

theorem reaches_anchored {currentS : TState} {steps : List (Step TState Lambda)}
    (reaches : Reaches currentS steps reached) : reached.machine.Anchored := by
  induction steps using List.reverseRecOn generalizing reached with
  | nil =>
    cases reaches
    exact fun _ member => absurd member (AList.notMem_empty _)
  | append_singleton steps step ih =>
    obtain ⟨before, first, left⟩ := reaches_snoc_iff.mp reaches
    exact (ih first).step (Step.changes left)

/-- Every call of the run keeps to declared ends. -/
def EndsDeclaredThroughout (currentS : TState) (steps : List (Step TState Lambda)) : Prop :=
  ∀ earlier step later reached, steps = earlier ++ step :: later → Reaches currentS earlier reached →
    step.EndsDeclared reached.machine

theorem reaches_closed {currentS : TState} {steps : List (Step TState Lambda)}
    (ends : EndsDeclaredThroughout currentS steps) (reaches : Reaches currentS steps reached) :
    reached.machine.Closed := by
  induction steps using List.reverseRecOn generalizing reached with
  | nil =>
    cases reaches
    exact fresh_closed currentS
  | append_singleton steps step ih =>
    obtain ⟨before, first, left⟩ := reaches_snoc_iff.mp reaches
    have sofar : EndsDeclaredThroughout currentS steps := by
      intro earlier other later reached shape
      exact ends earlier other (later ++ [step]) reached (by simp [shape])
    exact (ih sofar first).step (Step.changes left) (ends steps step [] before rfl first)

/-- What a call has turned the machine into is declared only if its ends are. -/
theorem Step.ends_of_declared {step : Step TState Lambda} {before : Traced TState Lambda}
    (anchored : before.machine.Anchored)
    (declared : ∀ after, Leaves step.run before after → after.machine.Declared) : step.EndsDeclared before.machine := by
  obtain ⟨operation, ending⟩ := step
  cases operation with
  | addTransition startState finalState lambda =>
    intro known
    -- the transition is registered, whatever its end
    have holds := declared _ (.of_returns (addTransition_connects known finalState lambda))
    exact ((holds (Finset.ne_empty_of_mem known)).2 (startState, finalState) ((AList.mem_insert ..).mpr (Or.inl rfl))).2
  | transitionTo state later =>
    intro lambda found returns
    have ran : (Step.run ⟨.transitionTo state later, ending⟩).run before =
        .ok () (before.arrive before.machine.currentS state later) := by
      simp only [Step.run, perform, transitionTo_run found, show ending lambda = none from returns]
      rfl
    have start := anchored _ (AList.lookup_isSome.mp (Option.isSome_iff_exists.mpr ⟨lambda, found⟩))
    exact Or.inr ((declared _ (.of_returns ran)) (Finset.ne_empty_of_mem start)).1
  | addState | addAction | update => trivial

/-- A machine never leaves its declared states, in any state its calls reach,
exactly if every transition registered from a declared state ends in one, and no
lambda that returns has replaced the target of its call by an undeclared state. -/
theorem declared_throughout_iff (currentS : TState) (steps : List (Step TState Lambda)) :
    (∀ earlier later reached, steps = earlier ++ later → Reaches currentS earlier reached →
        reached.machine.Declared) ↔
      EndsDeclaredThroughout currentS steps := by
  constructor
  · intro declared earlier step later reached shape reaches
    apply Step.ends_of_declared (reaches_anchored reaches)
    intro after left
    exact declared (earlier ++ [step]) later after (by simp [shape]) (reaches_snoc_iff.mpr ⟨reached, reaches, left⟩)
  · intro ends earlier later reached shape reaches
    have sofar : EndsDeclaredThroughout currentS earlier := by
      intro before step rest state inner
      exact ends before step (rest ++ later) state (by simp [shape, inner])
    exact (reaches_closed sofar reaches).declared

/-- A transition from the only declared state to one that was never declared is
accepted, and leads there. -/
theorem left_declared_states : ∃ registered moved : Traced Nat Unit,
    Reaches 0 [⟨.addState 1, fun _ => none⟩, ⟨.addTransition 1 2 (), fun _ => none⟩] registered ∧
      ¬ registered.machine.Declared ∧
      Reaches 0 [⟨.addState 1, fun _ => none⟩, ⟨.addTransition 1 2 (), fun _ => none⟩,
        ⟨.transitionTo 2 2, fun _ => none⟩] moved ∧
      moved.machine.currentS ∉ moved.machine.states := by
  refine ⟨_, _, rfl, ?_, rfl, by decide⟩
  intro declared
  exact absurd (declared (by decide)).2 (by decide)

end StateMachine
end Libftpp
