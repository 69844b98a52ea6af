import Libftpp.PoolLifetimes
import Libftpp.PoolSlots

/-! `Pool::acquire` when the constructor of `TType` throws. By then the slot has
been taken off the stack and marked as acquired, and its old value has been
destroyed. Nothing of this is undone: nobody has a reference to give the slot
back with, and the storage is destroyed once more by the next that comes to it. -/
namespace Libftpp
open Program

namespace Pool
variable {TType : Type}

/-- `Pool::acquire`, with what the constructor of `TType` makes or throws. -/
def acquireWith (construct : Except Exn TType) : Program Exn (Pool TType) Nat := do
  let pool ← get
  match pool.available with
  | [] => raise (.outOfRange "No available objects in the pool. Maybe try to increase its size.")
  | i :: rest =>
    set { pool with available := rest }
    onObject i (fun object => { object with pool_ptr := true }) fun _ => []
    onObject i PoolObject.emptied fun object => [.destroyed object.myself.isSome]
    match construct with
    | .error error => raise error
    | .ok value =>
      onObject i (fun object => { object with myself := some value }) fun object => [.constructed object.myself.isSome]
      pure i

/-- A constructor that returns. -/
theorem acquireWith_ok (value : TType) : acquireWith (.ok value) = acquire value := rfl

/-- What a constructor that throws leaves of the pool. -/
def failed (pool : Pool TType) (slot : Nat) (object : PoolObject TType) : Pool TType :=
  { pool with
    available := pool.available.tail
    objects := pool.objects.set slot ⟨true, object.idx, none⟩
    lifetimes := pool.lifetimes ++ [.destroyed object.myself.isSome] }

theorem acquireWith_error_run {pool : Pool TType} {i : Nat} {rest : List Nat} (top : pool.available = i :: rest)
    (found : pool.objects[i]? = some object) (error : Exn) :
    (acquireWith (.error error)).run pool = .error (.thrown error) (pool.failed i object) := by
  obtain ⟨inside, _⟩ := List.getElem?_eq_some_iff.mp found
  have here (changed : PoolObject TType) : (pool.objects.set i changed)[i]? = some changed :=
    List.getElem?_set_self inside
  rw [acquireWith, EStateM.run_bind, EStateM.run_get]
  simp only [top, EStateM.run_bind, EStateM.run_set]
  rw [onObject_run { pool with available := rest } found]
  simp only
  rw [onObject_run _ (here _)]
  simp [PoolObject.emptied, failed, top]

/-- An exception of the constructor comes out only where the slot taken is there. -/
theorem acquireWith_error_left {pool : Pool TType} (calls : pool.available ≠ [])
    (threw : (acquireWith (.error error)).run pool = .error (.thrown thrown) after) :
    ∃ slot rest object, pool.available = slot :: rest ∧ pool.objects[slot]? = some object ∧
      after = pool.failed slot object := by
  obtain ⟨slot, rest, top⟩ := List.exists_cons_of_ne_nil calls
  cases found : pool.objects[slot]? with
  | some object =>
    cases (acquireWith_error_run top found error).symm.trans threw
    exact ⟨slot, rest, object, top, found, rfl⟩
  | none =>
    rw [acquireWith, EStateM.run_bind, EStateM.run_get] at threw
    simp only [top, EStateM.run_bind, EStateM.run_set] at threw
    rw [onObject_outside { pool with available := rest } (List.getElem?_eq_none_iff.mp found)] at threw
    cases threw

/-- The same slots are free, so many acquires can still succeed as before, the
same slots are acquired, and the same slots hold a live value. -/
structure Unchanged (before after : Pool TType) : Prop where
  free : ∀ slot, slot ∈ after.available ↔ slot ∈ before.available
  left : after.available.length = before.available.length
  acquired : after.objects.map PoolObject.pool_ptr = before.objects.map PoolObject.pool_ptr
  live : (after.objects.map fun object => object.myself.isSome) = before.objects.map fun object => object.myself.isSome

theorem Spoiled.inTurn [Inhabited TType] {pool : Pool TType} (operations : List (Operation TType)) (spoiled : Spoiled pool)
    (ran : (Program.inTurn (operations.map Operation.perform)).run pool = .ok () after) : Spoiled after :=
  inTurn_keeps (fun _ _ _ holds left => holds.perform left) spoiled ran

/-- The storage of the slot holds nothing that could be destroyed. -/
theorem spoiled_of_failed {pool : Pool TType} (found : pool.objects[slot]? = some object) :
    Spoiled (pool.failed slot object) :=
  Or.inr ⟨_, List.mem_set (List.getElem?_eq_some_iff.mp found).1 _, rfl⟩

/-- An acquire whose constructor throws never leaves the pool as it was: one
acquire less can succeed, and whatever is done with the pool from then on, in the
end the destructor has been run on storage that held no value. -/
theorem failed_acquire_not_undone [Inhabited TType] {pool after : Pool TType} (error : Exn) (calls : pool.available ≠ [])
    (threw : (acquireWith (.error error)).run pool = .error (.thrown thrown) after) :
    ¬ Unchanged pool after ∧ ∀ (operations : List (Operation TType)) (gone : Pool TType),
      (do inTurn (operations.map Operation.perform); destroy).run after = .ok () gone →
        ∃ event ∈ gone.lifetimes, ¬ event.Fits := by
  obtain ⟨slot, rest, object, top, found, rfl⟩ := acquireWith_error_left calls threw
  constructor
  · intro unchanged
    have left : rest.length = (slot :: rest).length := by simpa [failed, top] using unchanged.left
    rw [List.length_cons] at left
    omega
  · intro operations gone ran
    obtain ⟨_, used, early, ended⟩ := bind_returns.mp ran
    exact ((spoiled_of_failed found).inTurn operations early).destroyed ended

/-- The only slot of a new pool. -/
theorem failed_acquire_takes_only_slot : ∃ made after : Pool Nat,
    (new 1 0).run unbuilt = .ok () made ∧ made.available = [0] ∧
      (acquireWith (.error (.runtimeError "no"))).run made = .error (.thrown (.runtimeError "no")) after ∧
      ¬ Unchanged made after ∧
      (acquire 7).run after = .error (.thrown (.outOfRange
        "No available objects in the pool. Maybe try to increase its size.")) after ∧
      ∃ gone, destroy.run after = .ok () gone ∧ Lifetime.destroyed false ∈ gone.lifetimes := by
  refine ⟨_, _, rfl, rfl, rfl, ?_, rfl, _, rfl, by decide⟩
  intro unchanged
  exact absurd unchanged.left (by decide)

/-- A new pool of two slots. -/
def twoFree : Pool Nat :=
  ⟨[1, 0], [⟨false, 0, some 0⟩, ⟨false, 1, some 0⟩], 2, [.constructed false, .constructed false]⟩

theorem failed_acquire_of_two :
    (new 2 0).run unbuilt = .ok () twoFree ∧
      (acquireWith (.error (.runtimeError "no"))).run twoFree =
        .error (.thrown (.runtimeError "no")) (twoFree.failed 1 ⟨false, 1, some 0⟩) ∧
      ¬ Unchanged twoFree (twoFree.failed 1 ⟨false, 1, some 0⟩) := by
  have fails : ¬ Unchanged twoFree (twoFree.failed 1 ⟨false, 1, some 0⟩) ∧ _ :=
    failed_acquire_not_undone (.runtimeError "no") (by decide) rfl
  exact ⟨rfl, rfl, fails.1⟩

end Pool

namespace Scene
variable {TType : Type}

/-- Who holds what does not depend on the values. -/
theorem Kept.alike {scene : Scene TType} {pool : Pool TType} (kept : Kept n scene)
    (same : pool.available = scene.pool.available)
    (objects : pool.objects.map PoolObject.emptied = scene.pool.objects.map PoolObject.emptied) :
    Kept n ⟨pool, scene.acquisitions⟩ := by
  have counterpart {slot : Nat} {object : PoolObject TType} (found : pool.objects[slot]? = some object) :
      ∃ other, scene.pool.objects[slot]? = some other ∧ other.pool_ptr = object.pool_ptr ∧ other.idx = object.idx := by
    have place := congrArg (·[slot]?) objects
    simp only [List.getElem?_map, found, Option.map_some] at place
    obtain ⟨other, there, alike⟩ := Option.map_eq_some_iff.mp place.symm
    refine ⟨other, there, ?_, ?_⟩
    · exact show other.emptied.pool_ptr = object.emptied.pool_ptr by rw [alike]
    · exact show other.emptied.idx = object.emptied.idx by rw [alike]
  constructor
  · have length := congrArg List.length objects
    rw [List.length_map, List.length_map] at length
    exact length.trans kept.size
  · intro slot object found
    obtain ⟨other, there, _, index⟩ := counterpart found
    exact index.symm.trans (kept.numbered slot other there)
  · exact same ▸ kept.split
  · intro place slot returned held latest object found
    obtain ⟨other, there, pointer, _⟩ := counterpart found
    exact pointer.symm.trans (kept.reference place slot returned held latest other there)
  · exact kept.copy
  · exact kept.gone

/-- To everybody else, the slot of a failed acquire is like one that is acquired
and never given back. -/
theorem Kept.failed [Inhabited TType] {scene : Scene TType} (kept : Kept n scene) {rest : List Nat}
    (top : scene.pool.available = slot :: rest) (found : scene.pool.objects[slot]? = some object) :
    Kept n ⟨scene.pool.failed slot object, scene.acquisitions ++ [⟨slot, .reference, false⟩]⟩ := by
  have acquired := kept.acquired default (Pool.acquire_run top found default)
  apply acquired.alike
  · exact congrArg List.tail top
  · simp [Pool.failed, PoolObject.emptied]

/-- Calls of those who have a handle, after an acquire at this place has failed. -/
def Onward (place : Nat) (before after : Scene TType) : Prop :=
  Step before after ∧ after.acquisitions[place]? = before.acquisitions[place]?

/-- No call gives the slot of a failed acquire back: it is not free in any state
that follows, so it is not handed out again. -/
theorem failed_slot_lost [Inhabited TType] {scene : Scene TType} {pool : Pool TType} (small : n < 2 ^ 31)
    (reached : Reached n growth scene) (calls : scene.pool.available ≠ [])
    (threw : (Pool.acquireWith (.error error)).run scene.pool = .error (.thrown thrown) pool) :
    ∃ slot ∈ scene.pool.available, ∃ lost : Acquisition TType,
      ∀ later, Relation.ReflTransGen (Onward scene.acquisitions.length) ⟨pool, scene.acquisitions ++ [lost]⟩ later →
        slot ∉ later.pool.available := by
  have kept := reached.kept small
  obtain ⟨slot, rest, object, top, found, rfl⟩ := Pool.acquireWith_error_left calls threw
  refine ⟨slot, by rw [top]; exact List.mem_cons_self .., ⟨slot, .reference, false⟩, ?_⟩
  intro later run
  have still : Kept n later ∧ later.acquisitions[scene.acquisitions.length]? = some ⟨slot, .reference, false⟩ := by
    induction run with
    | refl => exact ⟨kept.failed top found, List.getElem?_concat_length⟩
    | tail _ onward ih => exact ⟨ih.1.step onward.1, onward.2.trans ih.2⟩
  have owed : slot ∈ later.outstanding := List.mem_filterMap.mpr ⟨_, List.mem_of_getElem? still.2, rfl⟩
  intro free
  exact (still.1.exclusive.free slot (still.1.exclusive.inside slot free)).mp free owed

end Scene
end Libftpp
