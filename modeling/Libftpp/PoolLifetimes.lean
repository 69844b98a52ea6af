import Libftpp.Pool

/-! Who destroys a value. The constructor of an object makes one, `acquire`
replaces it, and `resize` and the destructor of the pool destroy all there are.
An object that stays in the vector through a `resize` is left without a value, so
whatever touches it next destroys nothing. The calls of a whole life are balanced
exactly when no `resize` leaves such an object. -/
namespace Libftpp
open Program

/-- A value is made only where none is, destroyed only where one is, and no
storage goes with a value in it. -/
def Lifetime.Fits : Lifetime → Prop
  | .constructed live => live = false
  | .destroyed live => live = true
  | .freed live => live = false

instance : DecidablePred Lifetime.Fits
  | .constructed live => inferInstanceAs (Decidable (live = false))
  | .destroyed live => inferInstanceAs (Decidable (live = true))
  | .freed live => inferInstanceAs (Decidable (live = false))

namespace Pool
variable {TType : Type}

/-- What is done with a pool between its construction and its destruction. -/
inductive Operation (TType : Type) where
  | resize (numberOfObjectStored growth : Nat)
  | acquire (value : TType)
  | release (slot : Nat)

namespace Operation

def perform [Inhabited TType] : Operation TType → Program Exn (Pool TType) Unit
  | .resize numberOfObjectStored growth => Pool.resize numberOfObjectStored growth
  | .acquire value => do
    let _slot ← Pool.acquire value
    pure ()
  | .release slot => Pool.releaseAt slot

/-- What the operation needs of the pool: `resize` must not leave an object that
was there before, and an index must be one of the vector. -/
def Suits (pool : Pool TType) : Operation TType → Prop
  | .resize numberOfObjectStored _ => pool.objects = [] ∨ numberOfObjectStored = 0
  | .acquire _ => ∀ slot ∈ pool.available.head?, slot < pool.objects.length
  | .release slot => slot < pool.objects.length

end Operation

/-- A pool constructed and put to use. -/
def usage [Inhabited TType] (size growth : Nat) (operations : List (Operation TType)) : Program Exn (Pool TType) Unit := do
  new size growth
  inTurn (operations.map Operation.perform)

/-- The whole life of a pool. -/
def lifecycle [Inhabited TType] (size growth : Nat) (operations : List (Operation TType)) :
    Program Exn (Pool TType) Unit := do
  usage size growth operations
  destroy

/-! ### What an operation does to storage -/

/-- Every call so far fitted, and every object holds a value. -/
structure Sound (pool : Pool TType) : Prop where
  fits : ∀ event ∈ pool.lifetimes, event.Fits
  live : ∀ object ∈ pool.objects, object.myself.isSome

/-- Some call did not fit, or the next one on some object will not. -/
def Spoiled (pool : Pool TType) : Prop :=
  (∃ event ∈ pool.lifetimes, ¬ event.Fits) ∨ ∃ object ∈ pool.objects, object.myself = none

theorem destroy_run (pool : Pool TType) :
    destroy.run pool = .ok ()
      { pool with
        available := givenBack pool.objects
        objects := []
        lifetimes := pool.lifetimes ++ ((pool.objects.map fun object => .destroyed object.myself.isSome) ++
          pool.objects.map fun _ => .freed false) } := by
  have same := givenBack_map PoolObject.emptied (fun _ => rfl) (fun _ => rfl) pool.objects
  simp only [destroy, destroyValues, discardObjects, EStateM.run_bind, EStateM.run_modify, EStateM.run_get,
    destroyObjects_run, same, List.append_nil, List.map_map, List.append_assoc]
  rfl

/-- Everything destroyed held a value, if every object did. -/
theorem fits_of_destroyed {objects : List (PoolObject TType)} (live : ∀ object ∈ objects, object.myself.isSome)
    (listed : event ∈ objects.map fun object => Lifetime.destroyed object.myself.isSome) : event.Fits := by
  obtain ⟨object, member, rfl⟩ := List.mem_map.mp listed
  exact live object member

/-- Destroying all values shows what was spoiled, whatever follows. -/
theorem Spoiled.shows {pool : Pool TType} (spoiled : Spoiled pool) (more : List Lifetime) :
    ∃ event ∈ pool.lifetimes ++ ((pool.objects.map fun object => .destroyed object.myself.isSome) ++ more),
      ¬ event.Fits := by
  rcases spoiled with ⟨event, listed, unfit⟩ | ⟨object, member, empty⟩
  · exact ⟨event, List.mem_append_left _ listed, unfit⟩
  · have listed : .destroyed false ∈ pool.objects.map fun object => Lifetime.destroyed object.myself.isSome := by
      refine List.mem_map.mpr ⟨object, member, ?_⟩
      rw [empty]
      rfl
    exact ⟨.destroyed false, List.mem_append_right _ (List.mem_append_left _ listed), by decide⟩

theorem Sound.destroyed {pool : Pool TType} (sound : Sound pool) (ran : destroy.run pool = .ok () after) :
    ∀ event ∈ after.lifetimes, event.Fits := by
  cases (destroy_run pool).symm.trans ran
  intro event listed
  rcases List.mem_append.mp listed with before | listed
  · exact sound.fits event before
  rcases List.mem_append.mp listed with destroyed | freed
  · exact fits_of_destroyed sound.live destroyed
  · obtain ⟨_, _, rfl⟩ := List.mem_map.mp freed
    rfl

theorem Spoiled.destroyed {pool : Pool TType} (spoiled : Spoiled pool) (ran : destroy.run pool = .ok () after) :
    ∃ event ∈ after.lifetimes, ¬ event.Fits := by
  cases (destroy_run pool).symm.trans ran
  exact spoiled.shows _

theorem resize_myself [Inhabited TType] {pool : Pool TType} {n : Nat}
    (ran : (resize n growth).run pool = .ok () after) :
    after.lifetimes = pool.lifetimes ++ pool.resizeNotes n ∧
      after.objects.map PoolObject.myself = (pool.resized n).map PoolObject.myself := by
  obtain ⟨capacity, resizes⟩ := resize_run pool n growth
  cases resizes.symm.trans ran
  refine ⟨rfl, ?_⟩
  apply List.ext_getElem (by simp)
  intro place _ _
  rw [List.getElem_map, List.getElem_mapIdx, List.getElem_map]
  split <;> rfl

theorem Sound.resized [Inhabited TType] {pool : Pool TType} {n : Nat} (sound : Sound pool)
    (suits : pool.objects = [] ∨ n = 0) (ran : (resize n growth).run pool = .ok () after) : Sound after := by
  obtain ⟨notes, values⟩ := resize_myself ran
  constructor
  · intro event listed
    rw [notes] at listed
    rcases List.mem_append.mp listed with before | listed
    · exact sound.fits event before
    rcases List.mem_append.mp listed with destroyed | listed
    · exact fits_of_destroyed sound.live destroyed
    rcases List.mem_append.mp listed with freed | made
    · rw [List.eq_of_mem_replicate freed]
      rfl
    · rw [List.eq_of_mem_replicate made]
      rfl
  · intro object member
    have value : object.myself ∈ (pool.resized n).map PoolObject.myself := values ▸ List.mem_map_of_mem member
    obtain ⟨before, held, same⟩ := List.mem_map.mp value
    rcases List.mem_append.mp held with kept | made
    · rcases suits with empty | zero
      · rw [empty] at kept
        simp at kept
      · rw [zero] at kept
        simp at kept
    · rw [← same, List.eq_of_mem_replicate made]
      rfl

/-- An object that stays through a `resize` is left without a value. -/
theorem spoiled_of_resized [Inhabited TType] {pool : Pool TType} {n : Nat}
    (unsuited : ¬ (pool.objects = [] ∨ n = 0)) (ran : (resize n growth).run pool = .ok () after) : Spoiled after := by
  obtain ⟨notes, values⟩ := resize_myself ran
  obtain ⟨object, objects, shape⟩ := List.exists_cons_of_ne_nil fun empty => unsuited (Or.inl empty)
  obtain ⟨m, rfl⟩ := Nat.exists_eq_succ_of_ne_zero fun zero => unsuited (Or.inr zero)
  have first : none ∈ (pool.resized (m + 1)).map PoolObject.myself := by
    simp [Pool.resized, shape, PoolObject.emptied]
  rw [← values] at first
  obtain ⟨left, member, empty⟩ := List.mem_map.mp first
  exact Or.inr ⟨left, member, empty⟩

theorem Spoiled.resized [Inhabited TType] {pool : Pool TType} {n : Nat} (spoiled : Spoiled pool)
    (ran : (resize n growth).run pool = .ok () after) : Spoiled after := by
  obtain ⟨notes, _⟩ := resize_myself ran
  refine Or.inl ?_
  rw [notes]
  exact spoiled.shows _

/-! ### Every operation -/

/-- `acquire` finds the object of the index it takes, or nothing on the stack. -/
theorem acquire_left {pool : Pool TType} (left : Leaves (do
      let _slot ← acquire value
      pure () : Program Exn (Pool TType) Unit) pool after) :
    after = pool ∧ pool.available = [] ∨
      ∃ i rest object, pool.available = i :: rest ∧ pool.objects[i]? = some object ∧ after =
        { pool with
          available := rest
          objects := pool.objects.set i ⟨true, object.idx, some value⟩
          lifetimes := pool.lifetimes ++ [.destroyed object.myself.isSome, .constructed false] } := by
  rcases left.bind with (⟨_, ran⟩ | ⟨_, ran⟩) | ⟨i, _, ran, left⟩
  · obtain ⟨rest, object, top, found, rfl⟩ := acquire_returns ran
    exact Or.inr ⟨_, rest, object, top, found, rfl⟩
  · obtain ⟨empty, same⟩ := acquire_throws ran
    exact Or.inl ⟨same, empty⟩
  · obtain ⟨rest, object, top, found, rfl⟩ := acquire_returns ran
    rcases left with ⟨_, ended⟩ | ⟨_, ended⟩ <;> cases ended
    exact Or.inr ⟨i, rest, object, top, found, rfl⟩

theorem release_left {pool : Pool TType} (left : Leaves (releaseAt slot) pool after) :
    ∃ object : PoolObject TType, pool.objects[slot]? = some object ∧ after =
      { pool with
        available := givenBack [object] ++ pool.available
        objects := pool.objects.set slot { object with pool_ptr := false } } := by
  cases found : pool.objects[slot]? with
  | none =>
    have stopped := releaseAt_outside (List.getElem?_eq_none_iff.mp found)
    rcases left with ⟨_, ran⟩ | ⟨_, ran⟩ <;> cases stopped.symm.trans ran
  | some object =>
    rcases left with ⟨_, ran⟩ | ⟨_, ran⟩ <;> cases (releaseAt_run found).symm.trans ran
    exact ⟨object, rfl, rfl⟩

theorem resize_left [Inhabited TType] {pool : Pool TType} (left : Leaves (resize n growth) pool after) :
    (resize n growth).run pool = .ok () after := by
  obtain ⟨capacity, ran⟩ := resize_run pool n growth
  rcases left with ⟨_, again⟩ | ⟨_, again⟩
  · exact again
  · cases ran.symm.trans again

/-- An operation that suits the pool returns or throws, and leaves all in order. -/
theorem Sound.perform [Inhabited TType] {pool : Pool TType} {operation : Operation TType} (sound : Sound pool)
    (suits : operation.Suits pool) : ∃ after, Leaves operation.perform pool after ∧ Sound after := by
  cases operation with
  | resize n growth =>
    obtain ⟨capacity, ran⟩ := resize_run pool n growth
    exact ⟨_, .of_returns ran, sound.resized suits ran⟩
  | acquire value =>
    cases top : pool.available with
    | nil => exact ⟨pool, Or.inr ⟨_, bind_stops.mpr (Or.inl (acquire_empty top value))⟩, sound⟩
    | cons i rest =>
      have inside : i < pool.objects.length := suits i (by rw [top]; rfl)
      have found := List.getElem?_eq_getElem inside
      refine ⟨_, .of_returns (bind_returns.mpr ⟨i, _, acquire_run top found value, rfl⟩), ?_, ?_⟩
      · intro event listed
        rcases List.mem_append.mp listed with before | listed
        · exact sound.fits event before
        rcases List.mem_cons.mp listed with rfl | listed
        · exact sound.live _ (List.getElem_mem inside)
        · rw [List.mem_singleton.mp listed]
          rfl
      · intro object member
        rcases List.mem_or_eq_of_mem_set member with before | rfl
        · exact sound.live object before
        · rfl
  | release slot =>
    have found := List.getElem?_eq_getElem suits
    refine ⟨_, .of_returns (releaseAt_run found), sound.fits, ?_⟩
    intro object member
    rcases List.mem_or_eq_of_mem_set member with before | rfl
    · exact sound.live object before
    · have kept := sound.live _ (List.getElem_mem suits)
      exact kept

/-- Nothing puts right what is spoiled. -/
theorem Spoiled.perform [Inhabited TType] {pool : Pool TType} {operation : Operation TType} (spoiled : Spoiled pool)
    (left : Leaves operation.perform pool after) : Spoiled after := by
  cases operation with
  | resize n growth => exact spoiled.resized (resize_left left)
  | acquire value =>
    rcases acquire_left left with ⟨rfl, _⟩ | ⟨i, rest, object, top, found, rfl⟩
    · exact spoiled
    · rcases spoiled with ⟨event, listed, unfit⟩ | ⟨other, member, empty⟩
      · exact Or.inl ⟨event, List.mem_append_left _ listed, unfit⟩
      · obtain ⟨place, present⟩ := List.mem_iff_getElem?.mp member
        by_cases here : i = place
        · subst here
          cases found.symm.trans present
          refine Or.inl ⟨.destroyed false, ?_, by decide⟩
          rw [empty]
          exact List.mem_append_right _ (List.mem_cons_self ..)
        · exact Or.inr ⟨other, List.mem_of_getElem? ((List.getElem?_set_ne here).trans present), empty⟩
  | release slot =>
    obtain ⟨object, found, rfl⟩ := release_left left
    rcases spoiled with unfit | ⟨other, member, empty⟩
    · exact Or.inl unfit
    · obtain ⟨place, present⟩ := List.mem_iff_getElem?.mp member
      by_cases here : slot = place
      · subst here
        cases found.symm.trans present
        exact Or.inr ⟨_, List.mem_set (List.getElem?_eq_some_iff.mp found).1 _, empty⟩
      · exact Or.inr ⟨other, List.mem_of_getElem? ((List.getElem?_set_ne here).trans present), empty⟩

/-- An operation that does not suit the pool has no meaning or spoils it. -/
theorem spoiled_of_unsuited [Inhabited TType] {pool : Pool TType} {operation : Operation TType}
    (unsuited : ¬ operation.Suits pool) (left : Leaves operation.perform pool after) : Spoiled after := by
  cases operation with
  | resize n growth => exact spoiled_of_resized unsuited (resize_left left)
  | acquire value =>
    refine absurd ?_ unsuited
    intro slot first
    rcases acquire_left left with ⟨_, empty⟩ | ⟨i, rest, object, top, found, _⟩
    · rw [empty] at first
      cases first
    · rw [top] at first
      cases first
      exact (List.getElem?_eq_some_iff.mp found).1
  | release slot =>
    obtain ⟨object, found, _⟩ := release_left left
    exact absurd (List.getElem?_eq_some_iff.mp found).1 unsuited

/-! ### Whole lives -/

/-- Each of the operations suits the pool it meets, in this use of a pool. -/
def AllSuit [Inhabited TType] (size growth : Nat) (operations : List (Operation TType)) : Prop :=
  ∀ first operation rest pool, operations = first ++ operation :: rest →
    (usage size growth first).run unbuilt = .ok () pool → operation.Suits pool

/-- The destructor is run on live values only, a value is made only where none
is, and none is live when the pool is gone. -/
def Balanced [Inhabited TType] (size growth : Nat) (operations : List (Operation TType)) : Prop :=
  ∃ gone, (lifecycle size growth operations).run unbuilt = .ok () gone ∧ ∀ event ∈ gone.lifetimes, event.Fits

theorem usage_snoc [Inhabited TType] {operations : List (Operation TType)} :
    (usage size growth (operations ++ [operation])).run unbuilt = .ok () after ↔
      ∃ middle, (usage size growth operations).run unbuilt = .ok () middle ∧
        Leaves operation.perform middle after := by
  unfold usage
  rw [List.map_append, List.map_singleton]
  constructor
  · intro ran
    obtain ⟨_, made, built, ran⟩ := bind_returns.mp ran
    obtain ⟨middle, first, last⟩ := inTurn_append.mp ran
    obtain ⟨_, left, ended⟩ := inTurn_cons last
    cases ended
    exact ⟨middle, bind_returns.mpr ⟨(), made, built, first⟩, left⟩
  · rintro ⟨middle, ran, left⟩
    obtain ⟨_, made, built, first⟩ := bind_returns.mp ran
    exact bind_returns.mpr ⟨(), made, built, inTurn_append.mpr ⟨middle, first, inTurn_single left⟩⟩

theorem sound_new [Inhabited TType] (built : (new n growth).run (unbuilt : Pool TType) = .ok () made) : Sound made := by
  have nothing : Sound (unbuilt : Pool TType) :=
    ⟨fun _ listed => (List.not_mem_nil listed).elim, fun _ member => (List.not_mem_nil member).elim⟩
  exact nothing.resized (Or.inl rfl) built

theorem Sound.usage [Inhabited TType] {operations : List (Operation TType)} (suit : AllSuit size growth operations) :
    ∃ pool, (usage size growth operations).run unbuilt = .ok () pool ∧ Sound pool := by
  induction operations using List.reverseRecOn with
  | nil =>
    obtain ⟨capacity, built⟩ := resize_run (unbuilt : Pool TType) size growth
    exact ⟨_, bind_returns.mpr ⟨(), _, built, rfl⟩, sound_new built⟩
  | append_singleton operations operation ih =>
    obtain ⟨pool, ran, sound⟩ := ih fun first other rest pool shape =>
      suit first other (rest ++ [operation]) pool (by rw [shape, List.append_assoc, List.cons_append])
    obtain ⟨after, left, kept⟩ := sound.perform (suit operations operation [] pool rfl ran)
    exact ⟨after, usage_snoc.mpr ⟨pool, ran, left⟩, kept⟩

/-- One operation that does not suit the pool spoils the rest of its life. -/
theorem Spoiled.usage [Inhabited TType] {operation : Operation TType} (unsuited : ¬ operation.Suits pool)
    (before : (Pool.usage size growth first).run unbuilt = .ok () pool)
    (ran : (Pool.usage size growth (first ++ operation :: rest)).run unbuilt = .ok () after) : Spoiled after := by
  induction rest using List.reverseRecOn generalizing after with
  | nil =>
    obtain ⟨middle, same, left⟩ := usage_snoc.mp ran
    cases before.symm.trans same
    exact spoiled_of_unsuited unsuited left
  | append_singleton rest last ih =>
    rw [← List.cons_append, ← List.append_assoc] at ran
    obtain ⟨middle, early, left⟩ := usage_snoc.mp ran
    exact (ih early).perform left

/-- The lifetimes in a pool are balanced exactly when no `resize` keeps an object
that was there before and every index taken or released is one of the vector. -/
theorem balanced_iff [Inhabited TType] (size growth : Nat) (operations : List (Operation TType)) :
    Balanced size growth operations ↔ AllSuit size growth operations := by
  constructor
  · rintro ⟨gone, ran, fit⟩ first operation rest pool rfl before
    by_contra unsuited
    obtain ⟨_, used, early, ended⟩ := bind_returns.mp ran
    obtain ⟨event, listed, unfit⟩ := (Spoiled.usage unsuited before early).destroyed ended
    exact unfit (fit event listed)
  · intro suit
    obtain ⟨pool, ran, sound⟩ := Sound.usage suit
    have ended := destroy_run pool
    exact ⟨_, bind_returns.mpr ⟨(), pool, ran, ended⟩, sound.destroyed ended⟩

/-- Resizing a pool of one slot to one slot destroys its value, and the end of
the pool destroys it again. -/
theorem resized_pool_unbalanced :
    ¬ ∀ (size growth : Nat) (operations : List (Operation Unit)), Balanced size growth operations := by
  intro holds
  obtain ⟨gone, ran, fit⟩ := holds 1 0 [.resize 1 0]
  have destroysTwice : (lifecycle 1 0 [.resize 1 0]).run (unbuilt : Pool Unit) = .ok ()
      ⟨[], [], 1, [.constructed false, .destroyed true, .destroyed false, .freed false]⟩ := rfl
  cases destroysTwice.symm.trans ran
  exact absurd (fit (.destroyed false) (by decide)) (by decide)

end Pool
end Libftpp
