import Mathlib.Data.Finset.Option
import Libftpp.DataBuffer

/-! The singleton (`singleton.hpp`). The constructor and the destructor of the class
may use the singleton themselves. A constructor that does finds no instance yet and
may make one, which is replaced as soon as it returns; still there is never more
than one instance that has not been destroyed. -/
namespace Libftpp
open Program

variable {Args : Type}

/-- A call of a static member, with the arguments for the constructor. -/
inductive Singleton.Call (Args : Type) where
  | theInstance
  | instantiate (args : Args)
  | reset

/-- What has happened to the objects, which are known by number. -/
inductive Singleton.Note where
  | constructed (object : Nat)
  | destroyed (object : Nat)
  | handed (object : Nat)
  deriving DecidableEq

/-- The rest of a constructor or destructor, as far as it concerns the singleton. -/
inductive Singleton.Body (Args : Type) where
  | returns
  | throws (what : String)
  | calls (call : Singleton.Call Args) (next : Except Exn Unit → List Singleton.Note → Singleton.Body Args)

/-- `Singleton`, with `_instance`, and how many objects have been constructed. -/
structure Singleton where
  inst : Option Nat
  created : Nat
  notes : List Singleton.Note
  deriving DecidableEq

/-- What the class does when an object is constructed and destroyed. -/
structure Singleton.Class (Args : Type) where
  construct : Args → List Singleton.Note → Singleton.Body Args
  destroy : Nat → List Singleton.Note → Singleton.Body Args

namespace Singleton

def new : Singleton := ⟨none, 0, []⟩

def note (event : Note) (singleton : Singleton) : Singleton := { singleton with notes := singleton.notes ++ [event] }

/-- `instance`. -/
def theInstance : Program Exn Singleton Unit := do
  let singleton ← get
  match singleton.inst with
  | none => raise (.runtimeError "Instance not yet created.")
  | some object => modify (note (.handed object))

section Calls
variable (construct : Args → Program Exn Singleton Unit) (destroy : Nat → Program Exn Singleton Unit)

/-- `_instance = …`: the old object goes when the new value is there. -/
def replace (object : Option Nat) : Program Exn Singleton Unit := do
  let singleton ← get
  modify fun singleton => { singleton with inst := object }
  match singleton.inst with
  | none => pure ()
  | some old => destroy old

/-- `instantiate`. -/
def instantiate (args : Args) : Program Exn Singleton Unit := do
  let singleton ← get
  if singleton.inst.isSome then raise (.runtimeError "Instance already exists.")
  else
    construct args
    let singleton ← get
    modify fun singleton => { singleton with
      created := singleton.created + 1
      notes := singleton.notes ++ [.constructed singleton.created] }
    replace destroy (some singleton.created)

def perform : Call Args → Program Exn Singleton Unit
  | .theInstance => theInstance
  | .instantiate args => instantiate construct destroy args
  | .reset => replace destroy none

end Calls

/-- The calls of a constructor or destructor, which may catch what they throw. -/
def respond (perform : Call Args → Program Exn Singleton Unit) : Body Args → Program Exn Singleton Unit
  | .returns => pure ()
  | .throws what => raise (.fromAction what)
  | .calls call next => do
    let outcome ← caught (perform call)
    let singleton ← get
    respond perform (next outcome singleton.notes)

/-- The program ends if an exception gets out of a destructor. -/
def unthrowing (program : Program Exn Singleton Unit) : Program Exn Singleton Unit := fun singleton =>
  match program.run singleton with
  | .error (.thrown _) after => .error .undefined after
  | result => result

section Class
variable (type : Class Args) (performs : Call Args → Program Exn Singleton Unit)

/-- A constructor. -/
def construct (args : Args) : Program Exn Singleton Unit := do
  let singleton ← get
  respond performs (type.construct args singleton.notes)

/-- A destructor. -/
def destroy (object : Nat) : Program Exn Singleton Unit := do
  modify (note (.destroyed object))
  let singleton ← get
  unthrowing (respond performs (type.destroy object singleton.notes))

end Class

/-- The calls of a program. Constructors and destructors nested deeper than `fuel`
are given up as divergent. -/
def performs (type : Class Args) : Nat → Call Args → Program Exn Singleton Unit
  | 0 => fun _ => hang
  | fuel + 1 => perform (construct type (performs type fuel)) (destroy type (performs type fuel))

/-! ### The account of the objects -/

/-- An object is constructed when there is no other by its number; only an object
that is there is destroyed or handed out. -/
def enter (there : Finset Nat) : Note → Option (Finset Nat)
  | .constructed object => if object ∈ there then none else some (insert object there)
  | .destroyed object => if object ∈ there then some (there.erase object) else none
  | .handed object => if object ∈ there then some there else none

/-- The objects that are there after these notes, if they are in order. -/
def account (notes : List Note) : Option (Finset Nat) := notes.foldlM enter ∅

theorem account_append (notes more : List Note) :
    account (notes ++ more) = (account notes).bind fun there => more.foldlM enter there := List.foldlM_append ..

/-- What a call does at once. -/
inductive Step (before : Singleton) : Singleton → Prop where
  | built :
      Step before
        { inst := some before.created
          created := before.created + 1
          notes := before.notes ++ .constructed before.created :: (before.inst.map Note.destroyed).toList }
  | emptied (held : before.inst = some object) :
      Step before { before with inst := none, notes := before.notes ++ [.destroyed object] }
  | handed (held : before.inst = some object) : Step before { before with notes := before.notes ++ [.handed object] }

/-- The instance is the one object that is there. -/
structure Sound (singleton : Singleton) : Prop where
  accounted : account singleton.notes = some singleton.inst.toFinset
  known : ∀ object, singleton.inst = some object → object < singleton.created

theorem Sound.step (sound : Sound before) (step : Step before after) : Sound after := by
  cases step with
  | built =>
    refine ⟨?_, fun object same => by cases same; exact Nat.lt_succ_self _⟩
    dsimp only
    rw [account_append, sound.accounted]
    cases held : before.inst with
    | none => rfl
    | some old =>
      have apart : before.created ≠ old := (sound.known old held).ne'
      have gone : (insert before.created {old} : Finset Nat).erase old = {before.created} := by
        rw [Finset.erase_insert_of_ne apart, Finset.erase_singleton]
        rfl
      simp [enter, apart, gone]
  | emptied held =>
    refine ⟨?_, nofun⟩
    rw [account_append, sound.accounted, held]
    simp [enter]
  | handed held =>
    refine ⟨?_, sound.known⟩
    rw [account_append, sound.accounted, held]
    simp [enter]

/-! ### Every call takes such steps -/

theorem respond_steps {perform : Call Args → Program Exn Singleton Unit}
    (steps : ∀ call, StepsThrough Step (perform call)) (body : Body Args) : StepsThrough Step (respond perform body) := by
  induction body with
  | returns => exact .pure ()
  | throws what => exact .raise _
  | calls call next ih =>
    apply StepsThrough.bind (steps call).caught
    intro outcome
    exact StepsThrough.bind .get fun singleton => ih outcome singleton.notes

theorem unthrowing_steps {program : Program Exn Singleton Unit} (steps : StepsThrough Step program) :
    StepsThrough Step (unthrowing program) := by
  intro before after left
  apply steps
  unfold unthrowing Leaves at left
  simp only [EStateM.run] at left
  cases ran : program.run before with
  | ok value middle =>
    rw [EStateM.run] at ran
    rw [ran] at left
    rcases left with ⟨_, same⟩ | ⟨_, same⟩ <;> cases same
    exact Or.inl ⟨value, ran⟩
  | error halt middle =>
    rw [EStateM.run] at ran
    rw [ran] at left
    cases halt <;> rcases left with ⟨_, same⟩ | ⟨_, same⟩ <;> cases same

/-- Behind its note, a destructor takes such steps. -/
theorem destroy_steps {type : Class Args} {performs : Call Args → Program Exn Singleton Unit}
    (steps : ∀ call, StepsThrough Step (performs call)) (left : Leaves (destroy type performs object) before after) :
    Relation.ReflTransGen Step (before.note (.destroyed object)) after :=
  StepsThrough.bind .get (fun _ => unthrowing_steps (respond_steps steps _)) _ _
    (left.past (show _ = EStateM.Result.ok _ (before.note (.destroyed object)) from rfl))

theorem theInstance_steps : StepsThrough Step theInstance := by
  intro before after left
  replace left := left.past (EStateM.run_get ..)
  cases held : before.inst with
  | none =>
    rw [held] at left
    exact StepsThrough.raise _ _ _ left
  | some object =>
    rw [held] at left
    rcases left with ⟨_, ran⟩ | ⟨_, ran⟩ <;> cases ran
    exact .single (.handed held)

section Nested
variable {type : Class Args} {performs : Call Args → Program Exn Singleton Unit}

theorem instantiate_steps (steps : ∀ call, StepsThrough Step (performs call)) (args : Args) :
    StepsThrough Step (instantiate (construct type performs) (destroy type performs) args) := by
  apply StepsThrough.bind .get
  intro singleton
  refine .ite (fun _ => .raise _) fun _ => ?_
  apply StepsThrough.bind
  · exact StepsThrough.bind .get fun _ => respond_steps steps _
  · -- The constructor may have left an instance behind, which then goes.
    intro _ before after left
    replace left := left.past (EStateM.run_get ..)
    replace left := left.past (EStateM.run_modify ..)
    replace left := left.past (EStateM.run_get ..)
    replace left := left.past (EStateM.run_modify ..)
    have step := @Step.built before
    cases held : before.inst with
    | none =>
      rw [held] at step
      simp only [held] at left
      rcases left with ⟨_, ran⟩ | ⟨_, ran⟩ <;> cases ran
      exact .single step
    | some old =>
      rw [held] at step
      simp only [held] at left
      have more := destroy_steps steps left
      rw [note, ← List.append_cons] at more
      exact .head step more

theorem reset_steps (steps : ∀ call, StepsThrough Step (performs call)) :
    StepsThrough Step (replace (destroy type performs) none) := by
  intro before after left
  replace left := left.past (EStateM.run_get ..)
  replace left := left.past (EStateM.run_modify ..)
  cases held : before.inst with
  | none =>
    rw [held] at left
    rcases left with ⟨_, ran⟩ | ⟨_, ran⟩ <;> cases ran
    rw [← held]
  | some object =>
    rw [held] at left
    exact .head (.emptied held) (destroy_steps steps left)

end Nested

theorem performs_steps (type : Class Args) (fuel : Nat) (call : Call Args) :
    StepsThrough Step (performs type fuel call) := by
  induction fuel generalizing call with
  | zero => rintro before after (⟨_, ran⟩ | ⟨_, ran⟩) <;> cases ran
  | succ fuel ih =>
    cases call with
    | theInstance => exact theInstance_steps
    | instantiate args => exact instantiate_steps ih args
    | reset => exact reset_steps ih

theorem Sound.steps (sound : Sound before) (steps : Relation.ReflTransGen Step before after) : Sound after := by
  induction steps with
  | refl => exact sound
  | tail _ step ih => exact ih.step step

/-- Whatever constructors and destructors call and throw: after any calls, every
object that was constructed has been destroyed once, but for the instance; none
was destroyed or handed out before it was constructed or after it was destroyed. -/
theorem instance_is_all_there_is {type : Class Args} {fuel : Nat} {calls : List (Call Args)} {singleton : Singleton}
    (ran : (inTurn (calls.map (performs type fuel))).run new = .ok () singleton) :
    account singleton.notes = some singleton.inst.toFinset :=
  (inTurn_keeps (fun call _ _ (sound : Sound _) left => sound.steps (performs_steps type fuel call _ _ left))
    ⟨rfl, fun _ same => by cases same⟩ ran).accounted

section Witnesses

/-- A class whose first constructor makes an instance itself. -/
private def twice : Class Bool where
  construct first _ := if first then .calls (.instantiate false) fun _ _ => .returns else .returns
  destroy _ _ := .returns

/-- The inner instance is replaced, though there was one. -/
theorem inner_instance_destroyed : ∃ singleton : Singleton,
    singleton.notes = [.constructed 0, .constructed 1, .destroyed 0, .handed 1] ∧
      account singleton.notes = some singleton.inst.toFinset := by
  have ran : (inTurn ([Call.instantiate true, .theInstance].map (performs twice 2))).run new = .ok () _ :=
    run_exitState (by decide +kernel)
  exact ⟨_, by decide +kernel, instance_is_all_there_is ran⟩

end Witnesses

end Singleton
end Libftpp
