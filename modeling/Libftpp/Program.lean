import Mathlib.Logic.Relation

/-! Imperative programs over an explicit state. A program returns, throws an
exception with the state it has reached, runs into undefined behaviour, or does
not come back at all. Exceptions do not roll the state back, so what a caller
sees after catching one is part of the meaning. -/
namespace Libftpp.Program

/-- Why a program did not return. Only an exception leaves a state that a
caller can go on from. -/
inductive Halt (ε : Type) where
  | thrown (error : ε)
  | undefined
  | diverges
  deriving DecidableEq, Repr

end Libftpp.Program

namespace Libftpp

/-- A program over states `σ` with exceptions `ε`. -/
abbrev Program (ε σ α : Type) := EStateM (Program.Halt ε) σ α

end Libftpp

namespace Libftpp.Program

variable {ε σ τ α β : Type}

/-- Throws a catchable exception. -/
def raise (error : ε) : Program ε σ α := fun state => .error (.thrown error) state

/-- The language gives this evaluation no meaning. -/
def undefinedBehaviour : Program ε σ α := fun state => .error .undefined state

/-- A computation that never comes back. -/
def hang : Program ε σ α := fun state => .error .diverges state

@[simp] theorem run_raise (error : ε) (state : σ) :
    (raise error : Program ε σ α).run state = .error (.thrown error) state := rfl

@[simp] theorem run_undefinedBehaviour (state : σ) :
    (undefinedBehaviour : Program ε σ α).run state = .error .undefined state := rfl

@[simp] theorem run_hang (state : σ) :
    (hang : Program ε σ α).run state = .error .diverges state := rfl

@[simp] theorem run_map (change : α → β) (program : Program ε σ α) (state : σ) :
    (change <$> program).run state =
      match program.run state with
      | .ok value after => .ok (change value) after
      | .error halt after => .error halt after := by
  change EStateM.map change program state = _
  unfold EStateM.map EStateM.run
  cases program state <;> rfl

theorem run_ite (condition : Prop) [Decidable condition] (first second : Program ε σ α) (state : σ) :
    (if condition then first else second).run state =
      if condition then first.run state else second.run state := by
  split <;> rfl

/-- A sequence returns exactly when both of its parts do. -/
theorem bind_returns {first : Program ε σ α} {next : α → Program ε σ β} :
    (first >>= next).run before = .ok result after ↔
      ∃ value middle, first.run before = .ok value middle ∧
        (next value).run middle = .ok result after := by
  rw [EStateM.run_bind]
  cases ran : first.run before with
  | ok value middle =>
    exact ⟨fun rest => ⟨value, middle, rfl, rest⟩, fun ⟨_, _, same, rest⟩ => by cases same; exact rest⟩
  | error halt middle => simp

/-- A sequence stops early in its first part or in the rest. -/
theorem bind_stops {first : Program ε σ α} {next : α → Program ε σ β} :
    (first >>= next).run before = .error halt after ↔
      first.run before = .error halt after ∨
        ∃ value middle, first.run before = .ok value middle ∧
          (next value).run middle = .error halt after := by
  rw [EStateM.run_bind]
  cases ran : first.run before with
  | ok value middle =>
    constructor
    · exact fun rest => Or.inr ⟨value, middle, rfl, rest⟩
    · rintro (same | ⟨_, _, same, rest⟩)
      · cases same
      · cases same
        exact rest
  | error halt middle => simp

/-! ### Programs on a part of the state -/

/-- Runs a program on one component, read by `get` and written back by `set`.
The component is written back on every exit. -/
def zoom (get : σ → τ) (set : σ → τ → σ) (part : Program ε τ α) : Program ε σ α := fun state =>
  match part.run (get state) with
  | .ok value inner => .ok value (set state inner)
  | .error halt inner => .error halt (set state inner)

theorem run_zoom (get : σ → τ) (set : σ → τ → σ) (part : Program ε τ α) (state : σ) :
    (zoom get set part).run state =
      match part.run (get state) with
      | .ok value inner => .ok value (set state inner)
      | .error halt inner => .error halt (set state inner) := rfl

theorem zoom_returns {get : σ → τ} {set : σ → τ → σ} {part : Program ε τ α} {inner : τ}
    (ran : part.run (get before) = .ok value inner) :
    (zoom get set part).run before = .ok value (set before inner) := by
  rw [run_zoom, ran]

theorem zoom_stops {get : σ → τ} {set : σ → τ → σ} {part : Program ε τ α} {inner : τ}
    (ran : part.run (get before) = .error halt inner) :
    (zoom get set part).run before = .error halt (set before inner) := by
  rw [run_zoom, ran]

/-- Runs a program on an object local to the caller and hands the object back.
An early exit destroys it. -/
def withLocal (object : τ) (part : Program ε τ α) : Program ε σ τ := fun state =>
  match part.run object with
  | .ok _ changed => .ok changed state
  | .error halt _ => .error halt state

theorem withLocal_returns {part : Program ε τ α} (ran : part.run object = .ok value changed) :
    (withLocal object part : Program ε σ τ).run state = .ok changed state := by
  simp [withLocal, EStateM.run] at ran ⊢
  rw [ran]

theorem of_withLocal {part : Program ε τ α}
    (ran : (withLocal object part : Program ε σ τ).run before = .ok changed after) :
    ∃ value, part.run object = .ok value changed := by
  unfold withLocal EStateM.run at ran
  split at ran <;> cases ran
  exact ⟨_, ‹_›⟩

theorem withLocal_stops {part : Program ε τ α} (ran : part.run object = .error halt changed) :
    (withLocal object part : Program ε σ τ).run state = .error halt state := by
  simp [withLocal, EStateM.run] at ran ⊢
  rw [ran]

/-- The value of an operation that leaves its object as it is. -/
def observe (object : τ) (part : Program ε τ α) : Program ε σ α := fun state =>
  match part.run object with
  | .ok value _ => .ok value state
  | .error halt _ => .error halt state

theorem run_observe (object : τ) (part : Program ε τ α) (state : σ) :
    (observe object part : Program ε σ α).run state =
      match part.run object with
      | .ok value _ => .ok value state
      | .error halt _ => .error halt state := rfl

/-! ### What holds of every state a caller can go on from -/

/-- Control leaves the program in this state, by returning or by an exception.
Undefined behaviour and divergence leave no state to speak of. -/
def Leaves (program : Program ε σ α) (before after : σ) : Prop :=
  (∃ value, program.run before = .ok value after) ∨
    ∃ error, program.run before = .error (.thrown error) after

theorem Leaves.of_returns {program : Program ε σ α}
    (ran : program.run before = .ok value after) : Leaves program before after :=
  Or.inl ⟨value, ran⟩

/-- The program comes to this state, in which it returns or goes on to something
that has no meaning. -/
def Attains (program : Program ε σ α) (before after : σ) : Prop :=
  (∃ value, program.run before = .ok value after) ∨ program.run before = .error .undefined after

theorem Attains.unique {program : Program ε σ α} (one : Attains program before after)
    (other : Attains program before after') : after = after' := by
  rcases one with ⟨_, one⟩ | one <;> rcases other with ⟨_, other⟩ | other <;> cases one.symm.trans other <;> rfl

/-- A sequence comes to where its rest does, or its first part never gets that far. -/
theorem Attains.past {first : Program ε σ α} (next : α → Program ε σ β) (ran : first.run before = .ok value middle)
    (attains : Attains (next value) middle after) : Attains (first >>= next) before after := by
  rcases attains with ⟨result, rest⟩ | rest
  · exact Or.inl ⟨result, bind_returns.mpr ⟨value, middle, ran, rest⟩⟩
  · exact Or.inr (bind_stops.mpr (Or.inr ⟨value, middle, ran, rest⟩))

theorem Attains.of_undefined {first : Program ε σ α} (next : α → Program ε σ β)
    (stopped : first.run before = .error .undefined after) : Attains (first >>= next) before after :=
  Or.inr (bind_stops.mpr (Or.inl stopped))

/-- From this state, the program does not run into undefined behaviour. -/
def Defined (program : Program ε σ α) (before : σ) : Prop := ∀ after, program.run before ≠ .error .undefined after

theorem Defined.of_run {program : Program ε σ α} (ran : program.run before = .ok value after) :
    Defined program before := by
  intro undefinedAt never
  cases ran.symm.trans never

theorem Defined.of_raise {program : Program ε σ α} (ran : program.run before = .error (.thrown error) after) :
    Defined program before := by
  intro undefinedAt never
  cases ran.symm.trans never

/-- A first part that is known to return can be passed over. -/
theorem Defined.past {first : Program ε σ α} (next : α → Program ε σ β) (ran : first.run before = .ok value middle)
    (rest : Defined (next value) middle) : Defined (first >>= next) before := by
  intro after
  rw [EStateM.run_bind, ran]
  exact rest after

/-- A sequence is left where its first part throws, or where the rest is left. -/
theorem Leaves.bind {first : Program ε σ α} {next : α → Program ε σ β}
    (left : Leaves (first >>= next) before after) :
    Leaves first before after ∨
      ∃ value middle, first.run before = .ok value middle ∧ Leaves (next value) middle after := by
  rcases left with ⟨result, ran⟩ | ⟨error, ran⟩
  · obtain ⟨value, middle, ranFirst, ranNext⟩ := bind_returns.mp ran
    exact Or.inr ⟨value, middle, ranFirst, Or.inl ⟨result, ranNext⟩⟩
  · rcases bind_stops.mp ran with ranFirst | ⟨value, middle, ranFirst, ranNext⟩
    · exact Or.inl (Or.inr ⟨error, ranFirst⟩)
    · exact Or.inr ⟨value, middle, ranFirst, Or.inr ⟨error, ranNext⟩⟩

/-- A first part that is known to return can be passed over. -/
theorem Leaves.past {first : Program ε σ α} {next : α → Program ε σ β}
    (left : Leaves (first >>= next) before after) (ran : first.run before = .ok value middle) :
    Leaves (next value) middle after := by
  unfold Leaves at left
  rw [EStateM.run_bind, ran] at left
  exact left

/-- Undefined behaviour has no exit. -/
theorem Leaves.undefined (left : Leaves (Program.undefinedBehaviour : Program ε σ α) before after) : False := by
  rcases left with ⟨_, ran⟩ | ⟨_, ran⟩ <;> cases ran

/-- A program on a part is left with that part as its own exit leaves it. -/
theorem Leaves.zoom {get : σ → τ} {set : σ → τ → σ} {part : Program ε τ α}
    (left : Leaves (zoom get set part) before after) :
    ∃ inner, Leaves part (get before) inner ∧ after = set before inner := by
  rcases left with ⟨value, ran⟩ | ⟨error, ran⟩
  all_goals
    rw [run_zoom] at ran
    split at ran <;> cases ran
  · exact ⟨_, Or.inl ⟨value, ‹_›⟩, rfl⟩
  · exact ⟨_, Or.inr ⟨error, ‹_›⟩, rfl⟩

theorem Leaves.ite {condition : Prop} [Decidable condition] {first second : Program ε σ α}
    (left : Leaves (if condition then first else second) before after) :
    condition ∧ Leaves first before after ∨ ¬ condition ∧ Leaves second before after := by
  split at left
  · exact Or.inl ⟨‹_›, left⟩
  · exact Or.inr ⟨‹_›, left⟩

/-- The state in which a program returns, if it does. -/
def exitState (program : Program ε σ Unit) (before : σ) : Option σ :=
  match program.run before with
  | .ok _ after => some after
  | .error _ _ => none

theorem run_exitState {program : Program ε σ Unit} (returns : (exitState program before).isSome) :
    program.run before = .ok () ((exitState program before).get returns) := by
  obtain ⟨after, state⟩ := Option.isSome_iff_exists.mp returns
  rw [Option.get_of_eq_some returns state]
  unfold exitState at state
  split at state
  · cases state
    assumption
  · cases state

theorem exitState_of_returns {program : Program ε σ Unit} (ran : program.run before = .ok () after) :
    exitState program before = some after := by
  rw [exitState, ran]

theorem Attains.of_exitState {program : Program ε σ Unit} (exits : exitState program before = some after) :
    Attains program before after := by
  have ran := run_exitState (Option.isSome_iff_exists.mpr ⟨_, exits⟩)
  rw [Option.get_of_eq_some _ exits] at ran
  exact Or.inl ⟨(), ran⟩

/-- What a program returns, and in which state, if it does. -/
def outcome (program : Program ε σ α) (before : σ) : Option (α × σ) :=
  match program.run before with
  | .ok value after => some (value, after)
  | .error _ _ => none

theorem run_outcome {program : Program ε σ α} (returns : (outcome program before).isSome)
    (result : ((outcome program before).get returns).1 = value) :
    program.run before = .ok value ((outcome program before).get returns).2 := by
  obtain ⟨pair, state⟩ := Option.isSome_iff_exists.mp returns
  rw [Option.get_of_eq_some returns state] at result ⊢
  unfold outcome at state
  split at state
  · cases state
    cases result
    assumption
  · cases state

/-- A caller that catches every exception and goes on. -/
def attempt (program : Program ε σ Unit) : Program ε σ Unit := fun state =>
  match program.run state with
  | .ok _ after => .ok () after
  | .error (.thrown _) after => .ok () after
  | .error halt after => .error halt after

theorem attempt_returns {program : Program ε σ Unit} :
    (attempt program).run before = .ok () after ↔ Leaves program before after := by
  unfold attempt Leaves
  change (match program.run before with
    | .ok _ after => EStateM.Result.ok () after
    | .error (.thrown _) after => .ok () after
    | .error halt after => .error halt after) = _ ↔ _
  rcases program.run before with ⟨_, middle⟩ | ⟨error | _ | _, middle⟩ <;> simp

theorem attempt_stops {program : Program ε σ Unit} (final : ∀ error, halt ≠ .thrown error)
    (stopped : program.run before = .error halt after) :
    (attempt program).run before = .error halt after := by
  unfold attempt
  change (match program.run before with
    | .ok _ after => EStateM.Result.ok () after
    | .error (.thrown _) after => .ok () after
    | .error halt after => .error halt after) = _
  rw [stopped]
  cases halt with
  | thrown error => exact absurd rfl (final error)
  | undefined => rfl
  | diverges => rfl

/-- A caller that catches an exception and looks at it. -/
def caught (program : Program ε σ α) : Program ε σ (Except ε α) := fun state =>
  match program.run state with
  | .ok value after => .ok (.ok value) after
  | .error (.thrown error) after => .ok (.error error) after
  | .error halt after => .error halt after

theorem caught_value {program : Program ε σ α} (ran : program.run before = .ok value after) :
    (caught program).run before = .ok (.ok value) after := by
  unfold caught
  simp only [EStateM.run] at ran ⊢
  rw [ran]

theorem caught_error {program : Program ε σ α} (ran : program.run before = .error (.thrown error) after) :
    (caught program).run before = .ok (.error error) after := by
  unfold caught
  simp only [EStateM.run] at ran ⊢
  rw [ran]

theorem caught_final {program : Program ε σ α} (final : ∀ error, halt ≠ .thrown error)
    (stopped : program.run before = .error halt after) : (caught program).run before = .error halt after := by
  unfold caught
  simp only [EStateM.run] at stopped ⊢
  rw [stopped]
  cases halt with
  | thrown error => exact absurd rfl (final error)
  | undefined => rfl
  | diverges => rfl

/-- Calls made one after the other, whatever they throw. -/
def inTurn (calls : List (Program ε σ Unit)) : Program ε σ Unit :=
  match calls with
  | [] => pure ()
  | call :: rest => do
    attempt call
    inTurn rest

theorem inTurn_cons {calls : List (Program ε σ Unit)}
    (ran : (inTurn (call :: calls)).run before = .ok () after) :
    ∃ middle, Leaves call before middle ∧ (inTurn calls).run middle = .ok () after := by
  obtain ⟨_, middle, first, rest⟩ := bind_returns.mp ran
  exact ⟨middle, attempt_returns.mp first, rest⟩

theorem inTurn_append {calls more : List (Program ε σ Unit)} :
    (inTurn (calls ++ more)).run before = .ok () after ↔
      ∃ middle, (inTurn calls).run before = .ok () middle ∧ (inTurn more).run middle = .ok () after := by
  induction calls generalizing before with
  | nil =>
    constructor
    · exact fun ran => ⟨before, rfl, ran⟩
    · rintro ⟨_, first, ran⟩
      cases first
      exact ran
  | cons call calls ih =>
    rw [List.cons_append, inTurn, inTurn, bind_returns]
    simp only [bind_returns, ih]
    constructor
    · rintro ⟨value, state, first, middle, rest, ran⟩
      exact ⟨middle, ⟨value, state, first, rest⟩, ran⟩
    · rintro ⟨middle, ⟨value, state, first, rest⟩, ran⟩
      exact ⟨value, state, first, middle, rest, ran⟩

theorem inTurn_single {call : Program ε σ Unit} (left : Leaves call before after) :
    (inTurn [call]).run before = .ok () after :=
  bind_returns.mpr ⟨(), after, attempt_returns.mpr left, rfl⟩

/-- What every call keeps, a run of calls keeps. -/
theorem inTurn_keeps {invariant : σ → Prop} {perform : τ → Program ε σ Unit} {operations : List τ}
    (keeps : ∀ operation before after, invariant before → Leaves (perform operation) before after → invariant after)
    (holds : invariant before) (ran : (inTurn (operations.map perform)).run before = .ok () after) :
    invariant after := by
  induction operations generalizing before with
  | nil =>
    cases ran
    exact holds
  | cons operation operations ih =>
    obtain ⟨middle, left, rest⟩ := inTurn_cons ran
    exact ih (keeps operation before middle holds left) rest

/-- Every exit a caller can go on from is reached by steps of the relation. A
program so described keeps whatever a single step keeps. -/
def StepsThrough (step : σ → σ → Prop) (program : Program ε σ α) : Prop :=
  ∀ before after, Leaves program before after → Relation.ReflTransGen step before after

theorem StepsThrough.pure {step : σ → σ → Prop} (value : α) :
    StepsThrough step (Pure.pure value : Program ε σ α) := by
  rintro before after (⟨result, ran⟩ | ⟨error, ran⟩)
  · cases ran
    exact .refl
  · cases ran

theorem StepsThrough.mono {step coarser : σ → σ → Prop} {program : Program ε σ α}
    (steps : StepsThrough step program) (covers : ∀ before after, step before after → coarser before after) :
    StepsThrough coarser program :=
  fun before after left => Relation.ReflTransGen.mono covers _ _ (steps before after left)

theorem StepsThrough.get {step : σ → σ → Prop} :
    StepsThrough step (MonadState.get : Program ε σ σ) := by
  rintro before after (⟨result, ran⟩ | ⟨error, ran⟩)
  · cases ran
    exact .refl
  · cases ran

theorem StepsThrough.raise {step : σ → σ → Prop} (error : ε) :
    StepsThrough step (Program.raise error : Program ε σ α) := by
  rintro before after (⟨result, ran⟩ | ⟨other, ran⟩)
  · cases ran
  · cases ran
    exact .refl

theorem StepsThrough.undefinedBehaviour {step : σ → σ → Prop} :
    StepsThrough step (Program.undefinedBehaviour : Program ε σ α) :=
  fun _ _ left => left.undefined.elim

theorem StepsThrough.observe {step : σ → σ → Prop} (object : τ) (part : Program ε τ α) :
    StepsThrough step (Program.observe object part : Program ε σ α) := by
  rintro before after (⟨result, ran⟩ | ⟨error, ran⟩)
  all_goals
    rw [run_observe] at ran
    split at ran <;> cases ran
    exact .refl

theorem Leaves.caught {program : Program ε σ α} (left : Leaves (caught program) before after) :
    Leaves program before after := by
  cases ran : program.run before with
  | ok value middle =>
    rcases left with ⟨_, again⟩ | ⟨_, again⟩ <;> cases (caught_value ran).symm.trans again
    exact Or.inl ⟨value, ran⟩
  | error halt middle =>
    cases halt with
    | thrown error =>
      rcases left with ⟨_, again⟩ | ⟨_, again⟩ <;> cases (caught_error ran).symm.trans again
      exact Or.inr ⟨error, ran⟩
    | undefined => rcases left with ⟨_, again⟩ | ⟨_, again⟩ <;> cases (caught_final nofun ran).symm.trans again
    | diverges => rcases left with ⟨_, again⟩ | ⟨_, again⟩ <;> cases (caught_final nofun ran).symm.trans again

theorem StepsThrough.caught {step : σ → σ → Prop} {program : Program ε σ α} (steps : StepsThrough step program) :
    StepsThrough step (Program.caught program) := fun _ _ left => steps _ _ left.caught

theorem StepsThrough.modify {step : σ → σ → Prop} {change : σ → σ}
    (stepped : ∀ state, step state (change state)) :
    StepsThrough step (modify change : Program ε σ PUnit) := by
  rintro before after (⟨result, ran⟩ | ⟨error, ran⟩)
  · cases ran
    exact .single (stepped before)
  · cases ran

theorem StepsThrough.bind {step : σ → σ → Prop} {first : Program ε σ α}
    {next : α → Program ε σ β} (stepsFirst : StepsThrough step first)
    (stepsNext : ∀ value, StepsThrough step (next value)) : StepsThrough step (first >>= next) := by
  intro before after left
  rcases left.bind with left | ⟨value, middle, ran, left⟩
  · exact stepsFirst before after left
  · exact (stepsFirst before middle (.of_returns ran)).trans (stepsNext value middle after left)

theorem StepsThrough.ite {step : σ → σ → Prop} {condition : Prop} [Decidable condition]
    {first second : Program ε σ α} (stepsFirst : condition → StepsThrough step first)
    (stepsSecond : ¬ condition → StepsThrough step second) :
    StepsThrough step (if condition then first else second) := by
  split
  · exact stepsFirst ‹_›
  · exact stepsSecond ‹_›

theorem StepsThrough.forM {step : σ → σ → Prop} (items : List τ) {body : τ → Program ε σ Unit}
    (steps : ∀ item ∈ items, StepsThrough step (body item)) : StepsThrough step (items.forM body) := by
  induction items with
  | nil => exact StepsThrough.pure ()
  | cons item items ih =>
    apply StepsThrough.bind (steps item (List.mem_cons_self ..))
    exact fun _ => ih fun other member => steps other (List.mem_cons_of_mem _ member)

/-! ### Postconditions -/

/-- From this state, the program returns only with the first and throws only
with the second postcondition. -/
def Meets (program : Program ε σ α) (before : σ) (returned : α → σ → Prop) (thrown : σ → Prop) : Prop :=
  (∀ value after, program.run before = .ok value after → returned value after) ∧
    ∀ error after, program.run before = .error (.thrown error) after → thrown after

theorem Meets.mono {program : Program ε σ α} (meets : Meets program before returned thrown)
    (returns : ∀ value after, returned value after → returned' value after)
    (throws : ∀ after, thrown after → thrown' after) : Meets program before returned' thrown' :=
  ⟨fun value after ran => returns value after (meets.1 value after ran),
    fun error after ran => throws after (meets.2 error after ran)⟩

theorem Meets.pure (holds : returned value before) :
    Meets (Pure.pure value : Program ε σ α) before returned thrown := by
  constructor
  · intro result after ran
    cases ran
    exact holds
  · intro error after ran
    cases ran

theorem Meets.bind {first : Program ε σ α} {next : α → Program ε σ β}
    (meets : Meets first before (fun value middle => Meets (next value) middle returned thrown) thrown) :
    Meets (first >>= next) before returned thrown := by
  constructor
  · intro result after ran
    obtain ⟨value, middle, ranFirst, ranNext⟩ := bind_returns.mp ran
    exact (meets.1 value middle ranFirst).1 result after ranNext
  · intro error after ran
    rcases bind_stops.mp ran with ranFirst | ⟨value, middle, ranFirst, ranNext⟩
    · exact meets.2 error after ranFirst
    · exact (meets.1 value middle ranFirst).2 error after ranNext

/-- What is known of every run that returns at once. -/
theorem Meets.of_run {program : Program ε σ α} (ran : program.run before = .ok value after)
    (holds : returned value after) : Meets program before returned thrown := by
  constructor
  · intro result final again
    rw [ran] at again
    cases again
    exact holds
  · intro error final again
    rw [ran] at again
    cases again

theorem Meets.undefinedBehaviour :
    Meets (Program.undefinedBehaviour : Program ε σ α) before returned thrown := by
  constructor
  · intro result after ran
    cases ran
  · intro error after ran
    cases ran

theorem Meets.leaves {program : Program ε σ α} (meets : Meets program before (fun _ => kept) kept)
    (left : Leaves program before after) : kept after := by
  rcases left with ⟨value, ran⟩ | ⟨error, ran⟩
  · exact meets.1 value after ran
  · exact meets.2 error after ran

/-! ### Invariants -/

/-- Entered where the invariant holds, the program is left, and where it holds. -/
def Keeps (invariant : σ → Prop) (program : Program ε σ α) : Prop :=
  ∀ before, invariant before → ∃ after, Leaves program before after ∧ invariant after

section Keeps
variable {invariant : σ → Prop}

theorem Keeps.pure (value : α) : Keeps invariant (Pure.pure value : Program ε σ α) :=
  fun before holds => ⟨before, .of_returns rfl, holds⟩

theorem Keeps.raise (error : ε) : Keeps invariant (Program.raise error : Program ε σ α) :=
  fun before holds => ⟨before, Or.inr ⟨error, rfl⟩, holds⟩

theorem Keeps.modify {change : σ → σ} (kept : ∀ state, invariant state → invariant (change state)) :
    Keeps invariant (modify change : Program ε σ PUnit) :=
  fun before holds => ⟨change before, .of_returns rfl, kept before holds⟩

theorem Keeps.bind {first : Program ε σ α} {next : α → Program ε σ β} (keepsFirst : Keeps invariant first)
    (keepsNext : ∀ value, Keeps invariant (next value)) : Keeps invariant (first >>= next) := by
  intro before holds
  obtain ⟨middle, ⟨value, ran⟩ | ⟨error, ran⟩, kept⟩ := keepsFirst before holds
  · obtain ⟨after, ⟨result, rest⟩ | ⟨error, rest⟩, ends⟩ := keepsNext value middle kept
    · exact ⟨after, .of_returns (bind_returns.mpr ⟨value, middle, ran, rest⟩), ends⟩
    · exact ⟨after, Or.inr ⟨error, bind_stops.mpr (Or.inr ⟨value, middle, ran, rest⟩)⟩, ends⟩
  · exact ⟨middle, Or.inr ⟨error, bind_stops.mpr (Or.inl ran)⟩, kept⟩

/-- Who catches what is thrown goes on from a state where the invariant holds. -/
theorem Keeps.caught {program : Program ε σ α} (keeps : Keeps invariant program) (holds : invariant before) :
    ∃ outcome after, (caught program).run before = .ok outcome after ∧ invariant after := by
  obtain ⟨after, ⟨value, ran⟩ | ⟨error, ran⟩, kept⟩ := keeps before holds
  · exact ⟨_, after, caught_value ran, kept⟩
  · exact ⟨_, after, caught_error ran, kept⟩

end Keeps

/-! ### Loops -/

/-- `while (condition) body`, given up as divergent after `fuel` rounds. -/
def whileLoop (condition : Program ε σ Bool) (body : Program ε σ Unit) : Nat → Program ε σ Unit
  | 0 => hang
  | fuel + 1 => do
    if ← condition then
      body
      whileLoop condition body fuel

variable {condition : Program ε σ Bool} {body : Program ε σ Unit}

theorem whileLoop_done (ran : condition.run before = .ok false after) :
    (whileLoop condition body (fuel + 1)).run before = .ok () after := by
  simp [whileLoop, ran]

theorem whileLoop_round (ran : condition.run before = .ok true middle)
    (rounded : body.run middle = .ok () after) :
    (whileLoop condition body (fuel + 1)).run before = (whileLoop condition body fuel).run after := by
  simp [whileLoop, ran, rounded]

theorem whileLoop_body_stops (ran : condition.run before = .ok true middle)
    (stopped : body.run middle = .error halt after) :
    (whileLoop condition body (fuel + 1)).run before = .error halt after := by
  simp [whileLoop, ran, stopped]

/-! ### More fuel -/

/-- The second program does what the first does, unless the first is given up as
divergent. -/
def Approximates (first second : Program ε σ α) : Prop :=
  ∀ before, (∃ after, first.run before = .error .diverges after) ∨ first.run before = second.run before

theorem Approximates.refl (program : Program ε σ α) : Approximates program program := fun _ => Or.inr rfl

theorem Approximates.hang (second : Program ε σ α) : Approximates Program.hang second :=
  fun before => Or.inl ⟨before, rfl⟩

theorem Approximates.bind {first second : Program ε σ α} {next continued : α → Program ε σ β}
    (start : Approximates first second) (rest : ∀ value, Approximates (next value) (continued value)) :
    Approximates (first >>= next) (second >>= continued) := by
  intro before
  simp only [EStateM.run_bind]
  rcases start before with ⟨after, stopped⟩ | same
  · exact Or.inl ⟨after, by simp [stopped]⟩
  · rw [← same]
    cases first.run before with
    | ok value middle => exact rest value middle
    | error halt after => exact Or.inr rfl

theorem Approximates.ite {condition : Prop} [Decidable condition] {first second next continued : Program ε σ α}
    (holds : Approximates first next) (fails : Approximates second continued) :
    Approximates (if condition then first else second) (if condition then next else continued) := by
  split
  · exact holds
  · exact fails

/-- A call that returns with two budgets returns the same. -/
theorem Approximates.unique {call : Nat → Program ε σ α}
    (grows : ∀ fuel more, fuel ≤ more → Approximates (call fuel) (call more))
    (one : (call fuel).run before = .ok value after) (other : (call more).run before = .ok value' after') :
    value = value' ∧ after = after' := by
  have same : (call fuel).run before = (call more).run before := by
    rcases Nat.le_total fuel more with less | less
    · rcases grows fuel more less before with ⟨_, stopped⟩ | same
      · rw [one] at stopped
        cases stopped
      · exact same
    · rcases grows more fuel less before with ⟨_, stopped⟩ | same
      · rw [other] at stopped
        cases stopped
      · exact same.symm
  rw [one, other] at same
  cases same
  exact ⟨rfl, rfl⟩

end Libftpp.Program
