import Libftpp.Program

/-! Two runs side by side. Two programs agree up to a relation of states if from
related states they end in the same way, with the same value or the same
exception, and in related states again. What the relation leaves out of a state
then has no influence on anything else. -/
namespace Libftpp.Program

variable {ε σ τ α β : Type} {related : σ → σ → Prop}

/-- Two results that differ at most as the relation allows. -/
inductive Alike (related : σ → σ → Prop) :
    EStateM.Result (Halt ε) σ α → EStateM.Result (Halt ε) σ α → Prop where
  | ok {value : α} (states : related first second) : Alike related (.ok value first) (.ok value second)
  | error {halt : Halt ε} (states : related first second) : Alike related (.error halt first) (.error halt second)

/-- From related states, both programs end alike. -/
def Agree (related : σ → σ → Prop) (first second : Program ε σ α) : Prop :=
  ∀ one other, related one other → Alike related (first.run one) (second.run other)

theorem Agree.returns {first second : Program ε σ α} (agree : Agree related first second)
    (states : related one other) (ran : first.run one = .ok value after) :
    ∃ after', second.run other = .ok value after' ∧ related after after' := by
  have ends := agree one other states
  rw [ran] at ends
  generalize second.run other = result at ends
  cases ends with
  | ok states => exact ⟨_, rfl, states⟩

theorem Agree.leaves {first second : Program ε σ α} (agree : Agree related first second)
    (states : related one other) (left : Leaves first one after) :
    ∃ after', Leaves second other after' ∧ related after after' := by
  rcases left with ⟨value, ran⟩ | ⟨error, ran⟩
  · obtain ⟨after', ran', states'⟩ := agree.returns states ran
    exact ⟨after', .of_returns ran', states'⟩
  · have ends := agree one other states
    rw [ran] at ends
    generalize ran' : second.run other = result at ends
    cases ends with
    | error states' => exact ⟨_, Or.inr ⟨error, ran'⟩, states'⟩

theorem Agree.pure (value : α) : Agree related (Pure.pure value : Program ε σ α) (Pure.pure value) :=
  fun _ _ states => .ok states

theorem Agree.raise (error : ε) : Agree related (Program.raise error : Program ε σ α) (Program.raise error) :=
  fun _ _ states => .error states

theorem Agree.undefinedBehaviour :
    Agree related (Program.undefinedBehaviour : Program ε σ α) Program.undefinedBehaviour :=
  fun _ _ states => .error states

theorem Agree.modify {change change' : σ → σ}
    (kept : ∀ one other, related one other → related (change one) (change' other)) :
    Agree related (modify change : Program ε σ PUnit) (modify change') :=
  fun one other states => .ok (kept one other states)

theorem Agree.bind {first first' : Program ε σ α} {next next' : α → Program ε σ β}
    (agree : Agree related first first') (agrees : ∀ value, Agree related (next value) (next' value)) :
    Agree related (first >>= next) (first' >>= next') := by
  intro one other states
  have ends := agree one other states
  rw [EStateM.run_bind, EStateM.run_bind]
  generalize first.run one = result at ends
  generalize first'.run other = result' at ends
  cases ends with
  | ok states' => exact agrees _ _ _ states'
  | error states' => exact .error states'

/-- What is done with the state that has been read may depend on it as far as
the relation determines it. -/
theorem Agree.get_bind {next next' : σ → Program ε σ β}
    (agrees : ∀ one other, related one other → Agree related (next one) (next' other)) :
    Agree related (get >>= next) (get >>= next') :=
  fun one other states => agrees one other states one other states

theorem Agree.ite {condition : Prop} [Decidable condition] {first first' second second' : Program ε σ α}
    (agree : Agree related first first') (agree' : Agree related second second') :
    Agree related (if condition then first else second) (if condition then first' else second') := by
  split
  · exact agree
  · exact agree'

theorem Agree.forM (items : List τ) {body body' : τ → Program ε σ Unit}
    (agrees : ∀ item, Agree related (body item) (body' item)) :
    Agree related (items.forM body) (items.forM body') := by
  induction items with
  | nil => exact .pure ()
  | cons item items ih => exact .bind (agrees item) fun _ => ih

theorem Agree.observe (object : τ) (part : Program ε τ α) :
    Agree related (Program.observe object part : Program ε σ α) (Program.observe object part) := by
  intro one other states
  rw [run_observe, run_observe]
  cases part.run object with
  | ok value _ => exact .ok states
  | error halt _ => exact .error states

/-- Programs on a part that the relation determines. -/
theorem Agree.zoom {get : σ → τ} {set : σ → τ → σ} {part : Program ε τ α}
    (same : ∀ one other, related one other → get one = get other)
    (kept : ∀ one other inner, related one other → related (set one inner) (set other inner)) :
    Agree related (Program.zoom get set part) (Program.zoom get set part) := by
  intro one other states
  rw [run_zoom, run_zoom, same one other states]
  cases part.run (get other) with
  | ok value inner => exact .ok (kept one other inner states)
  | error halt inner => exact .error (kept one other inner states)

end Libftpp.Program
