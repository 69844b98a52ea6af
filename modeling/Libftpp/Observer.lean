import Mathlib.Data.List.AList
import Libftpp.DataBuffer

/-! The observer (`observer.hpp`). What is subscribed to an event may, when it is
called, subscribe to events and notify of events itself. A `push_back` to the
vector a loop of `notify` goes through leaves the loop without valid iterators;
whatever else happens, the loop calls what was subscribed when it began. -/
namespace Libftpp
open Program

variable {TEvent Lambda : Type}

/-- What is called on an observer. -/
inductive Observer.Call (TEvent Lambda : Type) where
  | subscribe (event : TEvent) (lambda : Lambda)
  | notify (event : TEvent)

/-- What has happened, with the events whose notification was going on then. -/
inductive Observer.Note (TEvent Lambda : Type) where
  | called (underway : List TEvent) (lambda : Lambda)
  | subscribed (underway : List TEvent) (event : TEvent) (lambda : Lambda)
  deriving DecidableEq

/-- The rest of a lambda: finitely many calls, each chosen when the one before it
has come back or thrown. -/
inductive Observer.Body (TEvent Lambda : Type) where
  | returns
  | throws (what : String)
  | calls (call : Observer.Call TEvent Lambda)
      (next : Except Exn Unit → List (Observer.Note TEvent Lambda) → Observer.Body TEvent Lambda)

/-- `Observer`. The last two components only record; `underway` begins with the
event whose notification began last. -/
structure Observer (TEvent Lambda : Type) where
  events : AList fun _ : TEvent => List Lambda
  underway : List TEvent
  notes : List (Observer.Note TEvent Lambda)

/-- A program on an observer. -/
abbrev Observing (TEvent Lambda : Type) := Program Exn (Observer TEvent Lambda)

namespace Observer
variable [DecidableEq TEvent]

def new : Observer TEvent Lambda := ⟨∅, [], []⟩

/-- `_events.find(event)`. -/
def find (observer : Observer TEvent Lambda) (event : TEvent) : Option (List Lambda) := observer.events.lookup event

/-- What is subscribed to an event, in order. -/
def lambdas (observer : Observer TEvent Lambda) (event : TEvent) : List Lambda := (observer.find event).getD []

/-- `subscribe`. -/
def subscribe (event : TEvent) (lambda : Lambda) : Observing TEvent Lambda Unit :=
  modify fun observer => { observer with
    events := observer.events.insert event (observer.lambdas event ++ [lambda])
    notes := observer.notes ++ [.subscribed observer.underway event lambda] }

/-- Notes that the notification of an event is going on, until it is left. -/
def during (event : TEvent) (program : Observing TEvent Lambda Unit) : Observing TEvent Lambda Unit := fun observer =>
  match program.run { observer with underway := event :: observer.underway } with
  | .ok _ after => .ok () { after with underway := observer.underway }
  | .error (.thrown error) after => .error (.thrown error) { after with underway := observer.underway }
  | .error halt after => .error halt after

/-- The loop of `notify` over a vector that had so many elements when it began. -/
def callFrom (invoke : Lambda → Observing TEvent Lambda Unit) (event : TEvent) (size : Nat) :
    List Lambda → Observing TEvent Lambda Unit
  | [] => pure ()
  | lambda :: rest => do
    invoke lambda
    let observer ← get
    -- A `push_back` has invalidated at least the iterator at the end.
    if (observer.lambdas event).length = size then callFrom invoke event size rest
    else undefinedBehaviour

/-- `notify`. -/
def notify (invoke : Lambda → Observing TEvent Lambda Unit) (event : TEvent) : Observing TEvent Lambda Unit := do
  let observer ← get
  match observer.find event with
  | none => pure ()
  | some lambdas => during event (callFrom invoke event lambdas.length lambdas)

def perform (invoke : Lambda → Observing TEvent Lambda Unit) : Call TEvent Lambda → Observing TEvent Lambda Unit
  | .subscribe event lambda => subscribe event lambda
  | .notify event => notify invoke event

/-- The calls of a lambda, which may catch what they throw. -/
def respond (perform : Call TEvent Lambda → Observing TEvent Lambda Unit) :
    Body TEvent Lambda → Observing TEvent Lambda Unit
  | .returns => pure ()
  | .throws what => raise (.fromAction what)
  | .calls call next => do
    let outcome ← caught (perform call)
    let observer ← get
    respond perform (next outcome observer.notes)

/-- `funct()`. Calls nested deeper than `fuel` are given up as divergent. -/
def invoke (react : Lambda → List (Note TEvent Lambda) → Body TEvent Lambda) : Nat → Lambda → Observing TEvent Lambda Unit
  | 0, _ => hang
  | fuel + 1, lambda => do
    modify fun observer => { observer with notes := observer.notes ++ [.called observer.underway lambda] }
    let observer ← get
    respond (perform (invoke react fuel)) (react lambda observer.notes)

/-! ### What the notes tell -/

/-- What was subscribed to an event. -/
def subscribedTo (event : TEvent) (notes : List (Note TEvent Lambda)) : List Lambda :=
  notes.filterMap fun
    | .called .. => none
    | .subscribed _ other lambda => if other = event then some lambda else none

/-- What was called by a loop itself, which goes on inside these notifications. -/
def calledBy (underway : List TEvent) (notes : List (Note TEvent Lambda)) : List Lambda :=
  notes.filterMap fun
    | .called inside lambda => if inside = underway then some lambda else none
    | .subscribed .. => none

/-- Something was subscribed to an event whose notification was going on. -/
def Invalidates : Note TEvent Lambda → Prop
  | .called .. => False
  | .subscribed underway event _ => event ∈ underway

/-- The notifications that were going on. -/
def Note.inside : Note TEvent Lambda → List TEvent
  | .called underway _ | .subscribed underway _ _ => underway

@[simp] theorem subscribedTo_append (event : TEvent) (notes more : List (Note TEvent Lambda)) :
    subscribedTo event (notes ++ more) = subscribedTo event notes ++ subscribedTo event more := List.filterMap_append

@[simp] theorem calledBy_append (underway : List TEvent) (notes more : List (Note TEvent Lambda)) :
    calledBy underway (notes ++ more) = calledBy underway notes ++ calledBy underway more := List.filterMap_append

/-! ### What a call adds -/

/-- What has been noted, and subscribed, since. -/
structure Extends (before after : Observer TEvent Lambda) (added : List (Note TEvent Lambda)) : Prop where
  noted : after.notes = before.notes ++ added
  grown : ∀ event, after.lambdas event = before.lambdas event ++ subscribedTo event added
  inside : ∀ note ∈ added, before.underway <:+ note.inside

theorem Extends.refl (observer : Observer TEvent Lambda) : Extends observer observer [] :=
  ⟨(List.append_nil _).symm, fun _ => (List.append_nil _).symm, nofun⟩

theorem Extends.trans {before middle after : Observer TEvent Lambda} {added more : List (Note TEvent Lambda)}
    (first : Extends before middle added) (same : middle.underway = before.underway)
    (second : Extends middle after more) : Extends before after (added ++ more) where
  noted := by rw [second.noted, first.noted, List.append_assoc]
  grown event := by rw [second.grown, first.grown, subscribedTo_append, List.append_assoc]
  inside note member := by
    rcases List.mem_append.mp member with early | late
    · exact first.inside note early
    · exact same ▸ second.inside note late

/-- How a program is left, with what it has added then to what is past. It is
undefined only where something was subscribed to an event whose notification was
going on, and given up only if it may be. -/
def Adds (stuck : Prop) (past : List (Note TEvent Lambda)) (program : Observing TEvent Lambda α)
    (before : Observer TEvent Lambda) (returned thrown : List (Note TEvent Lambda) → Prop) : Prop :=
  match program.run before with
  | .ok _ after => ∃ added, Extends before after added ∧ after.underway = before.underway ∧ returned added
  | .error (.thrown _) after =>
    ∃ added, Extends before after added ∧ after.underway = before.underway ∧ thrown added
  | .error .undefined after => ∃ added, Extends before after added ∧ ∃ note ∈ past ++ added, Invalidates note
  | .error .diverges _ => stuck

section Rules
variable {stuck : Prop} {past : List (Note TEvent Lambda)} {before after : Observer TEvent Lambda}
  {returned thrown : List (Note TEvent Lambda) → Prop}

theorem Adds.of_run {program : Observing TEvent Lambda α} {added : List (Note TEvent Lambda)}
    (ran : program.run before = .ok value after) (added_ : Extends before after added)
    (same : after.underway = before.underway) (holds : returned added) : Adds stuck past program before returned thrown := by
  unfold Adds
  rw [ran]
  exact ⟨added, added_, same, holds⟩

theorem Adds.bind {first : Observing TEvent Lambda α} {next : α → Observing TEvent Lambda β}
    {middle : List (Note TEvent Lambda) → Prop} (adds : Adds stuck past first before middle thrown)
    (goes : ∀ value state added, first.run before = .ok value state → Extends before state added →
      state.underway = before.underway → middle added →
        Adds stuck (past ++ added) (next value) state (fun more => returned (added ++ more)) fun more => thrown (added ++ more)) :
    Adds stuck past (first >>= next) before returned thrown := by
  unfold Adds at adds ⊢
  rw [EStateM.run_bind]
  rcases ran : first.run before with ⟨value, state⟩ | ⟨error | _ | _, state⟩ <;> rw [ran] at adds <;> try exact adds
  obtain ⟨added, extended, same, holds⟩ := adds
  have rest := goes value state added ran extended same holds
  unfold Adds at rest
  dsimp only
  generalize (next value).run state = outcome at rest ⊢
  rcases outcome with ⟨result, after⟩ | ⟨error | _ | _, after⟩
  · obtain ⟨more, grown, still, holds⟩ := rest
    exact ⟨added ++ more, extended.trans same grown, still.trans same, holds⟩
  · obtain ⟨more, grown, still, holds⟩ := rest
    exact ⟨added ++ more, extended.trans same grown, still.trans same, holds⟩
  · obtain ⟨more, grown, note, member, invalid⟩ := rest
    exact ⟨added ++ more, extended.trans same grown, note, by rwa [← List.append_assoc], invalid⟩
  · exact rest

theorem Adds.get {next : Observer TEvent Lambda → Observing TEvent Lambda α}
    (adds : Adds stuck past (next before) before returned thrown) :
    Adds stuck past (MonadState.get >>= next) before returned thrown := adds

theorem Adds.mono {program : Observing TEvent Lambda α} {returned' thrown' : List (Note TEvent Lambda) → Prop}
    (adds : Adds stuck past program before returned thrown) (returns : ∀ added, returned added → returned' added)
    (throws : ∀ added, thrown added → thrown' added) : Adds stuck past program before returned' thrown' := by
  unfold Adds at adds ⊢
  generalize program.run before = outcome at adds ⊢
  rcases outcome with ⟨value, after⟩ | ⟨error | _ | _, after⟩
  · obtain ⟨added, extended, same, holds⟩ := adds
    exact ⟨added, extended, same, returns added holds⟩
  · obtain ⟨added, extended, same, holds⟩ := adds
    exact ⟨added, extended, same, throws added holds⟩
  · exact adds
  · exact adds

/-- Where a caller can go on, the notifications are those that were going on before. -/
theorem Adds.leaves {program : Observing TEvent Lambda α} (adds : Adds stuck past program before returned thrown)
    (left : Leaves program before after) : ∃ added, Extends before after added ∧ after.underway = before.underway := by
  unfold Adds at adds
  rcases left with ⟨value, ran⟩ | ⟨error, ran⟩
  all_goals
    rw [ran] at adds
    obtain ⟨added, extended, same, _⟩ := adds
    exact ⟨added, extended, same⟩

theorem Adds.caught {program : Observing TEvent Lambda α} (adds : Adds stuck past program before returned returned) :
    Adds stuck past (caught program) before returned fun _ => False := by
  unfold Adds at adds ⊢
  cases ran : program.run before with
  | ok value after =>
    rw [ran] at adds
    rw [caught_value ran]
    exact adds
  | error halt after =>
    rw [ran] at adds
    cases halt with
    | thrown error =>
      rw [caught_error ran]
      exact adds
    | undefined =>
      rw [caught_final nofun ran]
      exact adds
    | diverges =>
      rw [caught_final nofun ran]
      exact adds

end Rules

/-! ### The operations -/

/-- All calls of a lambda are of a kind. -/
def Body.Makes (allowed : Call TEvent Lambda → Prop) : Body TEvent Lambda → Prop
  | .returns | .throws _ => True
  | .calls call next => allowed call ∧ ∀ outcome notes, (next outcome notes).Makes allowed

omit [DecidableEq TEvent] in
theorem Body.makes_all {allowed : Call TEvent Lambda → Prop} (all : ∀ call, allowed call) (body : Body TEvent Lambda) :
    body.Makes allowed := by
  induction body with
  | returns => trivial
  | throws => trivial
  | calls call next ih => exact ⟨all call, ih⟩

omit [DecidableEq TEvent] in
theorem Body.Makes.mono {allowed wider : Call TEvent Lambda → Prop} (wide : ∀ call, allowed call → wider call)
    {body : Body TEvent Lambda} (makes : body.Makes allowed) : body.Makes wider := by
  induction body with
  | returns => trivial
  | throws => trivial
  | calls call next ih => exact ⟨wide call makes.1, fun outcome notes => ih outcome notes (makes.2 outcome notes)⟩

/-- The call makes no other lambda run. -/
def Call.Subscribes : Call TEvent Lambda → Prop
  | .subscribe .. => True
  | .notify _ => False

/-- Nothing was called by the loop that the caller may be in. -/
def Unheard (observer : Observer TEvent Lambda) (added : List (Note TEvent Lambda)) : Prop :=
  calledBy observer.underway added = []

section Operations
variable {stuck : Prop} {past : List (Note TEvent Lambda)} {observer : Observer TEvent Lambda}

theorem lambdas_insert (observer : Observer TEvent Lambda) (event other : TEvent) (more : List Lambda) :
    ({ observer with events := observer.events.insert event (observer.lambdas event ++ more) } :
        Observer TEvent Lambda).lambdas other =
      observer.lambdas other ++ if event = other then more else [] := by
  by_cases same : event = other
  · subst same
    simp [lambdas, find]
  · have apart : other ≠ event := Ne.symm same
    simp [lambdas, find, same, AList.lookup_insert_ne apart]

theorem subscribe_adds (event : TEvent) (lambda : Lambda) :
    Adds stuck past (subscribe event lambda) observer (Unheard observer) (Unheard observer) := by
  refine Adds.of_run rfl (show Extends _ _ [.subscribed observer.underway event lambda] from
    ⟨rfl, fun other => ?_, ?_⟩) rfl rfl
  · refine (lambdas_insert observer event other [lambda]).trans ?_
    congr 1
    by_cases same : event = other <;> simp [subscribedTo, same]
  · rintro note (_ | ⟨_, never⟩)
    · exact List.suffix_rfl
    · cases never

theorem during_adds {event : TEvent} {program : Observing TEvent Lambda Unit}
    {returned thrown : List (Note TEvent Lambda) → Prop}
    (adds : Adds stuck past program { observer with underway := event :: observer.underway } returned thrown) :
    Adds stuck past (during event program) observer (fun added => Unheard observer added ∧ returned added)
      fun added => Unheard observer added ∧ thrown added := by
  have restored : ∀ {after : Observer TEvent Lambda} {added underway},
      Extends { observer with underway := event :: observer.underway } after added →
        Extends observer { after with underway } added := by
    intro after added underway extended
    exact ⟨extended.noted, extended.grown, fun note member => (List.suffix_cons ..).trans (extended.inside note member)⟩
  have unheard : ∀ {after : Observer TEvent Lambda} {added},
      Extends { observer with underway := event :: observer.underway } after added → Unheard observer added := by
    intro after added extended
    refine List.filterMap_eq_nil_iff.mpr fun note member => ?_
    have inside := (extended.inside note member).length_le
    cases note with
    | subscribed => rfl
    | called underway lambda =>
      refine if_neg ?_
      rintro rfl
      exact absurd inside (by simp [Note.inside])
  unfold Adds at adds ⊢
  cases ran : program.run { observer with underway := event :: observer.underway } with
  | ok value after =>
    rw [ran] at adds
    obtain ⟨added, extended, _, holds⟩ := adds
    simp only [during, EStateM.run] at ran ⊢
    rw [ran]
    exact ⟨added, restored extended, rfl, unheard extended, holds⟩
  | error halt after =>
    rw [ran] at adds
    simp only [during, EStateM.run] at ran ⊢
    rw [ran]
    cases halt with
    | thrown error =>
      obtain ⟨added, extended, _, holds⟩ := adds
      exact ⟨added, restored extended, rfl, unheard extended, holds⟩
    | undefined =>
      obtain ⟨added, extended, invalid⟩ := adds
      exact ⟨added, restored extended, invalid⟩
    | diverges => exact adds

/-- The loop calls one lambda after the other. -/
theorem callFrom_adds {invoke : Lambda → Observing TEvent Lambda Unit} {event : TEvent} {rest : List Lambda}
    (turns : ∀ lambda (observer : Observer TEvent Lambda) past, Adds stuck past (invoke lambda) observer
      (fun added => calledBy observer.underway added = [lambda]) fun added => calledBy observer.underway added = [lambda])
    (going : event ∈ observer.underway) (size : (observer.lambdas event).length = count) :
    Adds stuck past (callFrom invoke event count rest) observer
      (fun added => calledBy observer.underway added = rest ∧ subscribedTo event added = [])
      fun added => calledBy observer.underway added ≠ [] ∧ calledBy observer.underway added <+: rest := by
  induction rest generalizing observer past with
  | nil => exact .of_run rfl (.refl observer) rfl ⟨rfl, rfl⟩
  | cons lambda rest ih =>
    refine Adds.bind ((turns lambda observer past).mono (fun _ => id) fun added called => ?_) ?_
    · rw [called]
      exact ⟨List.cons_ne_nil _ _, (List.prefix_cons_inj lambda).mpr List.nil_prefix⟩
    · intro _ middle added _ extended same called
      apply Adds.get
      have grown := congrArg List.length (extended.grown event)
      rw [List.length_append, size] at grown
      split
      · rename_i still
        rw [still] at grown
        have unchanged : subscribedTo event added = [] := List.length_eq_zero_iff.mp (by omega)
        refine (ih (same ▸ going) still).mono ?_ ?_
        · rintro more ⟨calls, none⟩
          rw [same] at calls
          rw [calledBy_append, subscribedTo_append, called, calls, unchanged, none]
          exact ⟨rfl, rfl⟩
        · rintro more ⟨_, part⟩
          rw [same] at part
          rw [calledBy_append, called]
          exact ⟨List.cons_ne_nil _ _, (List.prefix_cons_inj lambda).mpr part⟩
      · rename_i moved
        have subscribed : subscribedTo event added ≠ [] := by
          intro none
          rw [none] at grown
          exact moved grown
        obtain ⟨other, member⟩ := List.exists_mem_of_ne_nil _ subscribed
        obtain ⟨note, noted, shape⟩ := List.mem_filterMap.mp member
        refine ⟨[], .refl middle, note, List.mem_append_left _ (List.mem_append_right _ noted), ?_⟩
        have inside := extended.inside note noted
        cases note with
        | called => cases shape
        | subscribed underway target _ =>
          have here : target = event := by
            by_contra apart
            exact absurd shape (by simp [apart])
          exact here ▸ inside.subset going

theorem notify_adds {invoke : Lambda → Observing TEvent Lambda Unit} {event : TEvent}
    (turns : ∀ lambda (observer : Observer TEvent Lambda) past, Adds stuck past (invoke lambda) observer
      (fun added => calledBy observer.underway added = [lambda]) fun added => calledBy observer.underway added = [lambda]) :
    Adds stuck past (notify invoke event) observer
      (fun added => Unheard observer added ∧
        calledBy (event :: observer.underway) added = observer.lambdas event ∧ subscribedTo event added = [])
      (fun added => Unheard observer added ∧ calledBy (event :: observer.underway) added ≠ [] ∧
        calledBy (event :: observer.underway) added <+: observer.lambdas event) := by
  apply Adds.get
  cases found : observer.find event with
  | none =>
    have nobody : observer.lambdas event = [] := by rw [lambdas, found]; rfl
    rw [nobody]
    exact .of_run rfl (.refl observer) rfl ⟨rfl, rfl, rfl⟩
  | some list =>
    have all : observer.lambdas event = list := by rw [lambdas, found]; rfl
    rw [all]
    exact during_adds (callFrom_adds turns (List.mem_cons_self ..) (congrArg List.length all))

/-- A lambda whose calls may be made. -/
theorem respond_adds {perform : Call TEvent Lambda → Observing TEvent Lambda Unit} {allowed : Call TEvent Lambda → Prop}
    (performs : ∀ call (observer : Observer TEvent Lambda) past, allowed call →
      Adds stuck past (perform call) observer (Unheard observer) (Unheard observer))
    {body : Body TEvent Lambda} (makes : body.Makes allowed) :
    Adds stuck past (respond perform body) observer (Unheard observer) (Unheard observer) := by
  induction body generalizing observer past with
  | returns => exact .of_run rfl (.refl observer) rfl rfl
  | throws what => exact ⟨[], .refl observer, rfl, rfl⟩
  | calls call next ih =>
    refine Adds.bind ((performs call observer past makes.1).caught.mono (fun _ => id) fun _ => False.elim) ?_
    intro outcome middle added _ _ same unheard
    apply Adds.get
    have together : ∀ more, Unheard middle more → Unheard observer (added ++ more) := by
      intro more later
      rw [Unheard, same] at later
      rw [Unheard, calledBy_append, unheard, later]
      rfl
    exact (ih outcome middle.notes (makes.2 outcome middle.notes)).mono together together

/-- A lambda is called, with what it calls. -/
theorem called_adds {program : Observing TEvent Lambda Unit} {lambda : Lambda}
    (adds : ∀ past, Adds stuck past program
      { observer with notes := observer.notes ++ [.called observer.underway lambda] } (Unheard observer) (Unheard observer)) :
    Adds stuck past
      (do modify fun observer => { observer with notes := observer.notes ++ [.called observer.underway lambda] }; program)
      observer (fun added => calledBy observer.underway added = [lambda])
      fun added => calledBy observer.underway added = [lambda] := by
  have itself : calledBy observer.underway ([.called observer.underway lambda] : List (Note TEvent Lambda)) = [lambda] := by
    simp [calledBy]
  have noted : Extends observer { observer with notes := observer.notes ++ [.called observer.underway lambda] }
      [.called observer.underway lambda] := by
    refine ⟨rfl, fun event => (List.append_nil _).symm, ?_⟩
    rintro note (_ | ⟨_, never⟩)
    · exact List.suffix_rfl
    · cases never
  have together : ∀ more, Unheard observer more →
      calledBy observer.underway ([.called observer.underway lambda] ++ more) = [lambda] := by
    intro more later
    rw [calledBy_append, itself, later]
    rfl
  refine Adds.bind (.of_run rfl noted rfl rfl) ?_
  rintro _ _ _ ran - - rfl
  cases ran
  exact (adds _).mono together together

theorem perform_adds {invoke : Lambda → Observing TEvent Lambda Unit}
    (turns : ∀ lambda (observer : Observer TEvent Lambda) past, Adds stuck past (invoke lambda) observer
      (fun added => calledBy observer.underway added = [lambda]) fun added => calledBy observer.underway added = [lambda])
    (call : Call TEvent Lambda) :
    Adds stuck past (perform invoke call) observer (Unheard observer) (Unheard observer) := by
  cases call with
  | subscribe event lambda => exact subscribe_adds event lambda
  | notify event => exact (notify_adds turns).mono (fun _ => And.left) fun _ => And.left

/-- A lambda is given up only where notifications are nested too deeply. -/
theorem invoke_adds {react : Lambda → List (Note TEvent Lambda) → Body TEvent Lambda} {fuel : Nat}
    (bounded : stuck ∨ 0 < fuel ∧ ∀ lambda notes, (react lambda notes).Makes Call.Subscribes) (lambda : Lambda) :
    Adds stuck past (invoke react fuel lambda) observer (fun added => calledBy observer.underway added = [lambda])
      fun added => calledBy observer.underway added = [lambda] := by
  induction fuel generalizing past observer lambda with
  | zero =>
    rcases bounded with allowed | ⟨never, _⟩
    · exact allowed
    · exact absurd never (Nat.lt_irrefl 0)
  | succ fuel ih =>
    apply called_adds
    intro past
    apply Adds.get
    refine respond_adds (fun call observer past (allowed : stuck ∨ call.Subscribes) => ?_) ?_
    · cases call with
      | subscribe event lambda => exact subscribe_adds event lambda
      | notify event =>
        have anyway : stuck := allowed.resolve_right id
        exact perform_adds (fun lambda observer past => ih (Or.inl anyway) lambda) (.notify event)
    · rcases bounded with anyway | ⟨_, plain⟩
      · exact Body.makes_all (fun _ => Or.inl anyway) _
      · exact (plain _ _).mono fun _ => Or.inr

end Operations

/-! ### Runs -/

variable {react : Lambda → List (Note TEvent Lambda) → Body TEvent Lambda} {observer : Observer TEvent Lambda}

/-- Between two calls no notification is going on, and what is subscribed to an
event is what was, in order. -/
def Settled (observer : Observer TEvent Lambda) : Prop :=
  observer.underway = [] ∧ ∀ event, observer.lambdas event = subscribedTo event observer.notes

/-- Any calls on a new observer, whatever they throw. -/
theorem settled_of_run {fuel : Nat} {calls : List (Call TEvent Lambda)}
    (ran : (inTurn (calls.map (perform (invoke react fuel)))).run new = .ok () observer) : Settled observer := by
  have keeps : ∀ call before after, Settled before → Leaves (perform (invoke react fuel) call) before after →
      Settled after := by
    rintro call before after ⟨idle, all⟩ left
    have adds : Adds True [] (perform (invoke react fuel) call) before (Unheard before) (Unheard before) :=
      perform_adds (fun lambda _ _ => invoke_adds (Or.inl trivial) lambda) call
    obtain ⟨added, extended, same⟩ := adds.leaves left
    refine ⟨same.trans idle, fun event => ?_⟩
    rw [extended.grown, all, extended.noted, subscribedTo_append]
  exact inTurn_keeps keeps ⟨rfl, fun _ => rfl⟩ ran

/-- Whatever the lambdas do and whatever was called before: a `notify` that returns
has called all lambdas that were subscribed to its event until then, in order, and
nobody has subscribed to the event in the meantime. One that throws has called some
of them, the first ones. It is undefined only where a lambda subscribes to an event
of which it is being notified, and never given up if the lambdas notify of nothing. -/
theorem notify_calls_subscribed {fuel : Nat} {calls : List (Call TEvent Lambda)} (event : TEvent)
    (ran : (inTurn (calls.map (perform (invoke react fuel)))).run new = .ok () observer) :
    Adds (¬ (0 < fuel ∧ ∀ lambda notes, (react lambda notes).Makes Call.Subscribes)) []
      (notify (invoke react fuel) event) observer
      (fun added => calledBy [event] added = subscribedTo event observer.notes ∧ subscribedTo event added = [])
      fun added => calledBy [event] added ≠ [] ∧ calledBy [event] added <+: subscribedTo event observer.notes := by
  obtain ⟨idle, all⟩ := settled_of_run ran
  rw [← all event, ← idle]
  refine (notify_adds fun lambda observer past => invoke_adds ?_ lambda).mono (fun _ => And.right) fun _ => And.right
  exact or_iff_not_imp_left.mpr not_not.mp

section Witnesses

/-- Lambda 0 subscribes 1 to the event `true`. -/
private def recruit (lambda : Nat) (_ : List (Note Bool Nat)) : Body Bool Nat :=
  if lambda = 0 then .calls (.subscribe true 1) fun _ _ => .returns else .returns

/-- Where lambda 0 is subscribed to `false`, it is called on its own. -/
theorem recruit_called : ∃ observer : Observer Bool Nat, observer.lambdas false = [0, 2] ∧
    Adds (¬ (0 < 1 ∧ ∀ lambda notes, (recruit lambda notes).Makes Call.Subscribes)) []
      (notify (invoke recruit 1) false) observer
      (fun added => calledBy [false] added = subscribedTo false observer.notes ∧ subscribedTo false added = [])
      fun added => calledBy [false] added ≠ [] ∧ calledBy [false] added <+: subscribedTo false observer.notes := by
  have ran : (inTurn ([Call.subscribe false 0, .subscribe false 2].map (perform (invoke recruit 1)))).run new =
    .ok () _ := run_exitState (by decide +kernel)
  exact ⟨_, by decide +kernel, notify_calls_subscribed false ran⟩

end Witnesses

end Observer
end Libftpp
