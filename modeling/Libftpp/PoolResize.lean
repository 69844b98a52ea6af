import Libftpp.Pool

/-! What `resize` makes of a pool in use. It empties the stack first and resizes
the vector afterwards; an object that the vector destroys then, and that is still
acquired, puts its index on the stack once more. The pool comes out clean exactly
when the vector destroys no such object. -/
namespace Libftpp
open Program

namespace Pool
variable {TType : Type}

/-- A pool in use, with the objects copied from it that are still alive. -/
inductive Reachable [Inhabited TType] : Pool TType → List (PoolObject TType) → Prop where
  | new (n growth : Nat) (built : (new n growth).run unbuilt = .ok () made) : Reachable made []
  | acquired (reachable : Reachable pool copies) (value : TType)
      (ran : (acquire value).run pool = .ok slot after) : Reachable after copies
  | released (reachable : Reachable pool copies) (slot : Nat)
      (ran : (releaseAt slot).run pool = .ok () after) : Reachable after copies
  | copied {slot : Nat} {object : PoolObject TType} (reachable : Reachable pool copies)
      (found : pool.objects[slot]? = some object) : Reachable pool (object :: copies)
  | releasedCopy {object : PoolObject TType} (reachable : Reachable pool (first ++ object :: rest))
      (ran : (release object).run pool = .ok left after) : Reachable after (first ++ left :: rest)
  | destroyedCopy {object : PoolObject TType} (reachable : Reachable pool (first ++ object :: rest))
      (ran : (destroyObject object).run pool = .ok () after) : Reachable after (first ++ rest)
  | resized (reachable : Reachable pool copies) (n growth : Nat)
      (ran : (resize n growth).run pool = .ok () after) : Reachable after copies

/-- One `acquire` after the other. -/
def acquireAll : List TType → Program Exn (Pool TType) (List Nat)
  | [] => pure []
  | value :: values => do
    let slot ← acquire value
    let slots ← acquireAll values
    pure (slot :: slots)

/-- All indices are free, once each: so many acquisitions get different slots,
and one more gets none. -/
structure Clean (n : Nat) (pool : Pool TType) : Prop where
  free : pool.available.Perm (List.range n)
  next : ∀ values : List TType, values.length = n → ∃ slots after, (acquireAll values).run pool = .ok slots after ∧
    slots.length = n ∧ slots.Nodup ∧ (∀ slot ∈ slots, slot < n) ∧
      ∀ value, ∃ what, (acquire value).run after = .error (.thrown (.outOfRange what)) after

/-- An object has its place as its index, unless it was never numbered. -/
def Numbered (pool : Pool TType) : Prop :=
  ∀ (place : Nat) (object : PoolObject TType), pool.objects[place]? = some object → object.idx = place ∨ object.idx = 0

theorem Numbered.set {pool : Pool TType} {object changed : PoolObject TType} (numbered : Numbered pool)
    (found : pool.objects[slot]? = some object) (same : changed.idx = object.idx)
    (objects : after.objects = pool.objects.set slot changed) : Numbered after := by
  intro place other present
  rw [objects] at present
  by_cases here : slot = place
  · subst here
    obtain ⟨bound, _⟩ := List.getElem?_eq_some_iff.mp found
    rw [List.getElem?_set_self bound] at present
    cases present
    rw [same]
    exact numbered slot object found
  · rw [List.getElem?_set_ne here] at present
    exact numbered place other present

theorem Numbered.resized [Inhabited TType] {pool : Pool TType} (numbered : Numbered pool)
    (ran : (resize n growth).run pool = .ok () after) : Numbered after := by
  obtain ⟨capacity, resizes⟩ := resize_run pool n growth
  cases resizes.symm.trans ran
  intro place object present
  dsimp only at present
  rw [List.getElem?_mapIdx] at present
  obtain ⟨was, found, rfl⟩ := Option.map_eq_some_iff.mp present
  by_cases reached : place < (castInt n).toNat
  · rw [if_pos reached]
    exact Or.inl rfl
  rw [if_neg reached]
  unfold Pool.resized at found
  rcases List.mem_append.mp (List.mem_of_getElem? found) with _ | fresh
  · by_cases old : place < ((pool.objects.map PoolObject.emptied).take n).length
    · rw [List.getElem?_append_left old, List.getElem?_take] at found
      split at found
      · rw [List.getElem?_map] at found
        obtain ⟨earlier, there, rfl⟩ := Option.map_eq_some_iff.mp found
        exact numbered place earlier there
      · cases found
    · rw [List.getElem?_append_right (by omega)] at found
      rw [List.eq_of_mem_replicate (List.mem_of_getElem? found)]
      exact Or.inr rfl
  · rw [List.eq_of_mem_replicate fresh]
    exact Or.inr rfl

theorem Reachable.numbered [Inhabited TType] {pool : Pool TType} (reachable : Reachable pool copies) :
    Numbered pool := by
  induction reachable with
  | new n growth built =>
    have unbuilt : Numbered (unbuilt : Pool TType) := fun place object present => by cases present
    exact unbuilt.resized built
  | @acquired pool copies slot after reachable value ran ih =>
    obtain ⟨rest, object, _, found, rfl⟩ := acquire_returns ran
    exact @Numbered.set _ _ _ _ _ ⟨true, object.idx, some value⟩ ih found rfl rfl
  | @released pool copies after reachable slot ran ih =>
    cases found : pool.objects[slot]? with
    | none => cases (releaseAt_outside (List.getElem?_eq_none_iff.mp found)).symm.trans ran
    | some object =>
      cases (releaseAt_run found).symm.trans ran
      exact @Numbered.set _ _ _ _ _ { object with pool_ptr := false } ih found rfl rfl
  | copied reachable found ih => exact ih
  | releasedCopy reachable ran ih =>
    cases (release_run ..).symm.trans ran
    exact ih
  | destroyedCopy reachable ran ih =>
    cases (destroyObject_run ..).symm.trans ran
    exact ih
  | resized reachable n growth ran ih => exact ih.resized ran

/-- The objects that die have no index that the new size has room for last. -/
theorem last_not_given {pool : Pool TType} (numbered : Numbered pool) (large : ¬ n < 2 ^ 31) :
    n - 1 ∉ givenBack (pool.discards n) := by
  intro listed
  rw [givenBack, List.mem_reverse] at listed
  obtain ⟨object, held, index⟩ := List.mem_map.mp listed
  have member := List.mem_of_mem_filter held
  unfold discards at member
  split at member
  · obtain ⟨place, found⟩ := List.mem_iff_getElem?.mp member
    rw [List.getElem?_drop] at found
    rcases numbered _ object found with same | zero <;> omega
  · split at member
    · cases member
    · obtain ⟨place, found⟩ := List.mem_iff_getElem?.mp member
      obtain ⟨bound, _⟩ := List.getElem?_eq_some_iff.mp found
      rcases numbered _ object found with same | zero <;> omega

theorem acquireAll_run {pool : Pool TType} {values : List TType} (inside : ∀ slot ∈ pool.available, slot < pool.objects.length)
    (many : values.length = pool.available.length) :
    ∃ after, (acquireAll values).run pool = .ok pool.available after ∧ after.available = [] := by
  induction values generalizing pool with
  | nil =>
    have empty : pool.available = [] := List.length_eq_zero_iff.mp many.symm
    exact ⟨pool, by rw [empty]; rfl, empty⟩
  | cons value values ih =>
    obtain ⟨slot, rest, top⟩ := List.exists_cons_of_length_pos (show 0 < pool.available.length by
      rw [← many]
      exact Nat.succ_pos _)
    rw [top] at inside many
    have found := List.getElem?_eq_getElem (inside slot (List.mem_cons_self ..))
    have first := acquire_run top found value
    obtain ⟨after, ran, empty⟩ := @ih { pool with
        available := rest
        objects := pool.objects.set slot ⟨true, _, some value⟩
        lifetimes := _ }
      (fun other member => by
        rw [List.length_set]
        exact inside other (List.mem_cons_of_mem _ member))
      (Nat.succ.inj many)
    refine ⟨after, ?_, empty⟩
    rw [top]
    exact bind_returns.mpr ⟨slot, _, first, bind_returns.mpr ⟨rest, after, ran, rfl⟩⟩

theorem clean_of_free {pool : Pool TType} (size : pool.objects.length = n) (free : pool.available.Perm (List.range n)) :
    Clean n pool where
  free := free
  next values many := by
    have inside : ∀ slot ∈ pool.available, slot < n := fun slot member => List.mem_range.mp (free.mem_iff.mp member)
    have length : pool.available.length = n := free.length_eq.trans List.length_range
    obtain ⟨after, ran, empty⟩ := acquireAll_run (by rwa [size]) (many.trans length.symm)
    exact ⟨pool.available, after, ran, length, free.nodup_iff.mpr List.nodup_range, inside,
      fun value => ⟨_, acquire_empty empty value⟩⟩

/-- A pool in use comes out of `resize` clean exactly when the vector destroys no
object that is acquired, and the new size is one that an `int` can count. -/
theorem resize_clean_iff [Inhabited TType] {pool : Pool TType} (reachable : Reachable pool copies) (n growth : Nat) :
    (∃ after, (resize n growth).run pool = .ok () after ∧ Clean n after) ↔
      n < 2 ^ 31 ∧ ∀ object ∈ pool.discards n, object.pool_ptr = false := by
  obtain ⟨capacity, resizes⟩ := resize_run pool n growth
  constructor
  · rintro ⟨after, ran, clean⟩
    cases resizes.symm.trans ran
    have free := clean.free
    dsimp only at free
    have small : n < 2 ^ 31 := by
      by_contra large
      have listed := free.mem_iff.mpr (List.mem_range.mpr (show n - 1 < n by omega))
      rcases List.mem_append.mp listed with counted | given
      · have bound := castInt_lt n
        rw [List.mem_reverse, List.mem_range] at counted
        omega
      · exact last_not_given reachable.numbered large given
    refine ⟨small, fun object member => ?_⟩
    have length := free.length_eq
    rw [castInt_eq small, List.length_append, List.length_reverse, List.length_range, Nat.add_eq_left] at length
    by_contra held
    have given : object.idx ∈ givenBack (pool.discards n) := by
      rw [givenBack, List.mem_reverse]
      exact List.mem_map_of_mem (List.mem_filter.mpr ⟨member, by simpa using held⟩)
    rw [List.length_eq_zero_iff.mp length] at given
    cases given
  · rintro ⟨small, released⟩
    have nothing : givenBack (pool.discards n) = [] := by
      rw [givenBack, List.filter_eq_nil_iff.mpr fun object member => by simp [released object member]]
      rfl
    refine ⟨_, resizes, clean_of_free ?_ ?_⟩
    · exact List.length_mapIdx.trans (resized_length ..)
    · dsimp only
      rw [nothing, List.append_nil, castInt_eq small]
      exact List.reverse_perm _

/-- A pool of two slots and room for a third, of which one is acquired. -/
def twoSlots : Pool Unit :=
  ⟨[0], [⟨false, 0, some ()⟩, ⟨true, 1, some ()⟩], 3,
    [.constructed false, .constructed false, .destroyed true, .constructed false]⟩

theorem twoSlots_reachable : Reachable twoSlots [] := by
  have built : (new 2 1).run (unbuilt : Pool Unit) = .ok ()
      ⟨[1, 0], [⟨false, 0, some ()⟩, ⟨false, 1, some ()⟩], 3, [.constructed false, .constructed false]⟩ := rfl
  have ran : (acquire ()).run (⟨[1, 0], [⟨false, 0, some ()⟩, ⟨false, 1, some ()⟩], 3,
      [.constructed false, .constructed false]⟩ : Pool Unit) = .ok 1 twoSlots := rfl
  exact (Reachable.new 2 1 built).acquired () ran

/-- It grows where it is. -/
theorem resize_clean_in_place : ∃ after, (resize 3 0).run twoSlots = .ok () after ∧ Clean 3 after :=
  (resize_clean_iff twoSlots_reachable 3 0).mpr ⟨by decide, by decide⟩

/-- Shrunk to one slot, the acquired object dies and puts its index on the stack,
which is out of range now. -/
theorem resize_leaves_dead_slot :
    ¬ ∀ (pool : Pool Unit) (copies : List (PoolObject Unit)) (n growth : Nat), Reachable pool copies →
      ∃ after, (resize n growth).run pool = .ok () after ∧ Clean n after := by
  intro holds
  obtain ⟨after, ran, clean⟩ := holds twoSlots [] 1 0 twoSlots_reachable
  have resizes : (resize 1 0).run twoSlots = .ok ()
      ⟨[0, 1], [⟨false, 0, none⟩], 3, [.constructed false, .constructed false, .destroyed true, .constructed false,
        .destroyed true, .destroyed true, .freed false]⟩ := rfl
  cases resizes.symm.trans ran
  exact absurd clean.free.length_eq (by decide)

end Pool
end Libftpp
