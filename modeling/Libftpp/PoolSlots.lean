import Libftpp.Pool
import Libftpp.Threads

/-! Who holds which slot of a pool. An acquisition is held by the reference that
`acquire` returned, or by an object copied from it. A released slot may be handed
out again; then the old reference is not used any more. The slots on the stack
and those of the acquisitions that nobody gave back are, together, all slots. -/
namespace Libftpp
open Program

/-- What an acquisition is held by. -/
inductive Handle (TType : Type) where
  | reference
  | copy (object : PoolObject TType)
  | gone

/-- One `acquire`, and whether its handle has been released or destroyed. -/
structure Acquisition (TType : Type) where
  slot : Nat
  handle : Handle TType
  returned : Bool

/-- The slot of an acquisition that is still outstanding. -/
def Acquisition.owed {TType : Type} (acquisition : Acquisition TType) : Option Nat :=
  if acquisition.returned then none else some acquisition.slot

/-- A pool and all that has been acquired from it, in order. -/
structure Scene (TType : Type) where
  pool : Pool TType
  acquisitions : List (Acquisition TType)

namespace Scene
variable {TType : Type}

/-- The slots of the outstanding acquisitions. -/
def outstanding (scene : Scene TType) : List Nat := scene.acquisitions.filterMap Acquisition.owed

/-- The slot has not been handed out again. -/
def Latest (scene : Scene TType) (place slot : Nat) : Prop :=
  ∀ (later : Nat) (acquisition : Acquisition TType), place < later → scene.acquisitions[later]? = some acquisition → acquisition.slot ≠ slot

/-- One call, made through the one handle of an acquisition. -/
inductive Step (scene : Scene TType) : Scene TType → Prop where
  | acquired (value : TType) (ran : (Pool.acquire value).run scene.pool = .ok slot after) :
      Step scene ⟨after, scene.acquisitions ++ [⟨slot, .reference, false⟩]⟩
  | refused (value : TType) (ran : (Pool.acquire value).run scene.pool = .error (.thrown error) after) :
      Step scene ⟨after, scene.acquisitions⟩
  | copied {place slot : Nat} {returned : Bool} {object : PoolObject TType}
      (held : scene.acquisitions[place]? = some ⟨slot, .reference, returned⟩)
      (latest : scene.Latest place slot) (found : scene.pool.objects[slot]? = some object) :
      Step scene ⟨scene.pool, scene.acquisitions.set place ⟨slot, .copy object, returned⟩⟩
  | released {place slot : Nat} {returned : Bool}
      (held : scene.acquisitions[place]? = some ⟨slot, .reference, returned⟩)
      (latest : scene.Latest place slot) (ran : (Pool.releaseAt slot).run scene.pool = .ok () after) :
      Step scene ⟨after, scene.acquisitions.set place ⟨slot, .reference, true⟩⟩
  | releasedCopy {place slot : Nat} {returned : Bool} {object : PoolObject TType}
      (held : scene.acquisitions[place]? = some ⟨slot, .copy object, returned⟩)
      (ran : (Pool.release object).run scene.pool = .ok released after) :
      Step scene ⟨after, scene.acquisitions.set place ⟨slot, .copy released, true⟩⟩
  | destroyedCopy {place slot : Nat} {returned : Bool} {object : PoolObject TType}
      (held : scene.acquisitions[place]? = some ⟨slot, .copy object, returned⟩)
      (ran : (Pool.destroyObject object).run scene.pool = .ok () after) :
      Step scene ⟨after, scene.acquisitions.set place ⟨slot, .gone, true⟩⟩

/-- What such calls on a new pool of this many slots lead to. -/
inductive Reached [Inhabited TType] (n growth : Nat) : Scene TType → Prop where
  | new (built : (Pool.new n growth).run Pool.unbuilt = .ok () made) : Reached n growth ⟨made, []⟩
  | step (reached : Reached n growth before) (step : Step before after) : Reached n growth after

/-- Slots are handed out exclusively, as long as there are any. -/
structure Exclusive (n : Nat) (scene : Scene TType) : Prop where
  once : scene.pool.available.Nodup
  inside : ∀ slot ∈ scene.pool.available, slot < n
  free : ∀ slot < n, slot ∈ scene.pool.available ↔ slot ∉ scene.outstanding
  distinct : scene.outstanding.Nodup
  refuses : scene.outstanding.length = n → ∀ value, ∃ what,
    (Pool.acquire value).run scene.pool = .error (.thrown (.outOfRange what)) scene.pool
  hands : scene.outstanding.length ≠ n → ∀ value, ∃ slot rest pool, scene.pool.available = slot :: rest ∧
    (Pool.acquire value).run scene.pool = .ok slot pool ∧ pool.available = rest

/-- What every call keeps. -/
structure Kept (n : Nat) (scene : Scene TType) : Prop where
  size : scene.pool.objects.length = n
  numbered : ∀ (slot : Nat) (object : PoolObject TType), scene.pool.objects[slot]? = some object → object.idx = slot
  split : (scene.pool.available ++ scene.outstanding).Perm (List.range n)
  reference : ∀ (place slot : Nat) (returned : Bool), scene.acquisitions[place]? = some ⟨slot, .reference, returned⟩ →
    scene.Latest place slot → ∀ object : PoolObject TType, scene.pool.objects[slot]? = some object → object.pool_ptr = !returned
  copy : ∀ (place slot : Nat) (object : PoolObject TType) (returned : Bool), scene.acquisitions[place]? = some ⟨slot, .copy object, returned⟩ →
    object.pool_ptr = !returned ∧ object.idx = slot
  gone : ∀ (place slot : Nat) (returned : Bool), scene.acquisitions[place]? = some ⟨slot, .gone, returned⟩ → returned = true

theorem Kept.exclusive {scene : Scene TType} (kept : Kept n scene) : Exclusive n scene := by
  have together : (scene.pool.available ++ scene.outstanding).Nodup := kept.split.nodup_iff.mpr List.nodup_range
  obtain ⟨once, distinct, apart⟩ := List.nodup_append'.mp together
  have length := kept.split.length_eq
  rw [List.length_append, List.length_range] at length
  have inside : ∀ slot ∈ scene.pool.available, slot < n := fun slot member =>
    List.mem_range.mp (kept.split.mem_iff.mp (List.mem_append_left _ member))
  constructor
  · exact once
  · exact inside
  · intro slot bound
    constructor
    · exact fun free held => apart free held
    · intro unheld
      rcases List.mem_append.mp (kept.split.mem_iff.mpr (List.mem_range.mpr bound)) with free | held
      · exact free
      · exact absurd held unheld
  · exact distinct
  · intro all value
    exact ⟨_, Pool.acquire_empty (List.length_eq_zero_iff.mp (by omega)) value⟩
  · intro some value
    obtain ⟨slot, rest, top⟩ := List.exists_cons_of_length_pos (show 0 < scene.pool.available.length by omega)
    have bound := inside slot (top ▸ List.mem_cons_self ..)
    have found := List.getElem?_eq_getElem (show slot < scene.pool.objects.length by rw [kept.size]; exact bound)
    exact ⟨slot, rest, _, top, Pool.acquire_run top found value, rfl⟩

/-! ### What becomes of the outstanding slots -/

theorem outstanding_set_same {acquisitions : List (Acquisition TType)} {old new : Acquisition TType}
    (held : acquisitions[place]? = some old) (same : new.owed = old.owed) :
    (acquisitions.set place new).filterMap Acquisition.owed = acquisitions.filterMap Acquisition.owed := by
  obtain ⟨inside, rfl⟩ := List.getElem?_eq_some_iff.mp held
  have unchanged := Threads.filterMap_around Acquisition.owed held acquisitions[place]
  rw [List.set_getElem_self] at unchanged
  rw [Threads.filterMap_around Acquisition.owed held new, same, unchanged]

theorem outstanding_set_returned {acquisitions : List (Acquisition TType)} {old new : Acquisition TType}
    (held : acquisitions[place]? = some old) (owes : old.owed = some slot) (settled : new.owed = none) :
    (acquisitions.filterMap Acquisition.owed).Perm
      (slot :: (acquisitions.set place new).filterMap Acquisition.owed) := by
  have moved := Threads.filterMap_set_perm Acquisition.owed held new
  rw [owes, settled] at moved
  exact moved.symm

/-- What is said of the handle of an acquisition. -/
def Acquisition.Fits (acquisition : Acquisition TType) (pool : Pool TType) : Prop :=
  match acquisition.handle with
  | .reference => ∀ object : PoolObject TType, pool.objects[acquisition.slot]? = some object →
      object.pool_ptr = !acquisition.returned
  | .copy object => object.pool_ptr = !acquisition.returned ∧ object.idx = acquisition.slot
  | .gone => acquisition.returned = true

/-! ### Every call keeps it -/

theorem Latest.before {scene : Scene TType} {pool : Pool TType} {acquisition : Acquisition TType}
    (latest : Latest ⟨pool, scene.acquisitions ++ [acquisition]⟩ place slot) : scene.Latest place slot := by
  intro later other after found
  obtain ⟨inside, _⟩ := List.getElem?_eq_some_iff.mp found
  exact latest later other after ((List.getElem?_append_left inside).trans found)

theorem Latest.unset {scene : Scene TType} {pool : Pool TType} {old new : Acquisition TType}
    (latest : Latest ⟨pool, scene.acquisitions.set changed new⟩ place slot)
    (held : scene.acquisitions[changed]? = some old) (same : new.slot = old.slot) : scene.Latest place slot := by
  intro later other after found
  by_cases here : changed = later
  · subst here
    rw [held] at found
    cases found
    obtain ⟨inside, _⟩ := List.getElem?_eq_some_iff.mp held
    exact same ▸ latest changed new after (List.getElem?_set_self inside)
  · exact latest later other after ((List.getElem?_set_ne here).trans found)

/-- Writing an object with the right number keeps the numbering. -/
theorem numbered_set {objects : List (PoolObject TType)} {changed : PoolObject TType}
    (numbered : ∀ (slot : Nat) (object : PoolObject TType), objects[slot]? = some object → object.idx = slot)
    (bound : place < objects.length) (index : changed.idx = place) (slot : Nat) (object : PoolObject TType)
    (present : (objects.set place changed)[slot]? = some object) : object.idx = slot := by
  by_cases here : place = slot
  · subst here
    rw [List.getElem?_set_self bound] at present
    cases present
    exact index
  · rw [List.getElem?_set_ne here] at present
    exact numbered slot object present

/-- One more acquisition, seen from the list with it. -/
theorem lookup_snoc {acquisitions : List (Acquisition TType)} {new found : Acquisition TType}
    (held : (acquisitions ++ [new])[place]? = some found) :
    place < acquisitions.length ∧ acquisitions[place]? = some found ∨ found = new := by
  by_cases old : place < acquisitions.length
  · rw [List.getElem?_append_left old] at held
    exact Or.inl ⟨old, held⟩
  · rw [List.getElem?_append_right (by omega), List.getElem?_singleton] at held
    split at held <;> cases held
    exact Or.inr rfl

/-- A call through the handle of one acquisition. -/
theorem Kept.settled {scene : Scene TType} {pool : Pool TType} {old : Acquisition TType} (kept : Kept n scene)
    (new : Acquisition TType) (held : scene.acquisitions[place]? = some old) (same : new.slot = old.slot)
    (size : pool.objects.length = n)
    (numbered : ∀ (slot : Nat) (object : PoolObject TType), pool.objects[slot]? = some object → object.idx = slot)
    (split : (pool.available ++ (scene.acquisitions.set place new).filterMap Acquisition.owed).Perm (List.range n))
    (others : ∀ (other slot : Nat) (returned : Bool), other ≠ place →
      scene.acquisitions[other]? = some ⟨slot, .reference, returned⟩ → scene.Latest other slot →
        pool.objects[slot]? = scene.pool.objects[slot]?)
    (fits : Acquisition.Fits new pool) : Kept n ⟨pool, scene.acquisitions.set place new⟩ := by
  obtain ⟨inside, _⟩ := List.getElem?_eq_some_iff.mp held
  have lookup (other : Nat) (acquisition : Acquisition TType)
      (found : (scene.acquisitions.set place new)[other]? = some acquisition) :
      other = place ∧ acquisition = new ∨ other ≠ place ∧ scene.acquisitions[other]? = some acquisition := by
    by_cases here : place = other
    · subst here
      rw [List.getElem?_set_self inside] at found
      exact Or.inl ⟨rfl, (Option.some.inj found).symm⟩
    · rw [List.getElem?_set_ne here] at found
      exact Or.inr ⟨Ne.symm here, found⟩
  constructor
  · exact size
  · exact numbered
  · exact split
  · intro other slot returned found latest object present
    rcases lookup other _ found with ⟨rfl, rfl⟩ | ⟨apart, found⟩
    · exact fits object present
    · have before := latest.unset held same
      rw [others other slot returned apart found before] at present
      exact kept.reference other slot returned found before object present
  · intro other slot object returned found
    rcases lookup other _ found with ⟨rfl, rfl⟩ | ⟨apart, found⟩
    · exact fits
    · exact kept.copy other slot object returned found
  · intro other slot returned found
    rcases lookup other _ found with ⟨rfl, rfl⟩ | ⟨apart, found⟩
    · exact fits
    · exact kept.gone other slot returned found

/-- The stack after a handle has given its slot back, if it still had to. -/
theorem Kept.gives {scene : Scene TType} {object : PoolObject TType} (kept : Kept n scene)
    (held : scene.acquisitions[place]? = some ⟨slot, handle, returned⟩) (pointer : object.pool_ptr = !returned)
    (index : object.idx = slot) (left : Handle TType) :
    ((Pool.givenBack [object] ++ scene.pool.available) ++
      (scene.acquisitions.set place ⟨slot, left, true⟩).filterMap Acquisition.owed).Perm (List.range n) := by
  cases returned with
  | true =>
    have nothing : Pool.givenBack [object] = [] := by simp [Pool.givenBack, pointer]
    have same : (⟨slot, left, true⟩ : Acquisition TType).owed = (⟨slot, handle, true⟩ : Acquisition TType).owed := rfl
    rw [nothing, outstanding_set_same held same]
    exact kept.split
  | false =>
    have slotBack : Pool.givenBack [object] = [slot] := by simp [Pool.givenBack, pointer, index]
    have paid : (⟨slot, left, true⟩ : Acquisition TType).owed = none := rfl
    have settled := outstanding_set_returned held rfl paid
    rw [slotBack]
    exact (List.perm_middle.symm.trans (settled.symm.append_left _)).trans kept.split

theorem Kept.acquired {scene : Scene TType} (kept : Kept n scene) (value : TType)
    (ran : (Pool.acquire value).run scene.pool = .ok slot after) :
    Kept n ⟨after, scene.acquisitions ++ [⟨slot, .reference, false⟩]⟩ := by
  obtain ⟨rest, taken, top, found, rfl⟩ := Pool.acquire_returns ran
  obtain ⟨bound, _⟩ := List.getElem?_eq_some_iff.mp found
  have index := kept.numbered slot taken found
  constructor
  · exact (List.length_set ..).trans kept.size
  · exact numbered_set kept.numbered bound index
  · have split := kept.split
    rw [top] at split
    change (rest ++ (scene.acquisitions ++ [_]).filterMap Acquisition.owed).Perm _
    rw [List.filterMap_append, ← List.append_assoc]
    exact (List.perm_append_singleton ..).trans split
  · intro place other returned held latest object present
    dsimp only at present
    rcases lookup_snoc held with ⟨old, held⟩ | new
    · have apart : slot ≠ other :=
        latest scene.acquisitions.length ⟨slot, .reference, false⟩ old List.getElem?_concat_length
      rw [List.getElem?_set_ne apart] at present
      exact kept.reference place other returned held latest.before object present
    · cases new
      rw [List.getElem?_set_self bound] at present
      cases present
      rfl
  · intro place other object returned held
    rcases lookup_snoc held with ⟨_, held⟩ | new
    · exact kept.copy place other object returned held
    · cases new
  · intro place other returned held
    rcases lookup_snoc held with ⟨_, held⟩ | new
    · exact kept.gone place other returned held
    · cases new

/-- A release through the reference last handed out for its slot. -/
theorem Kept.released {scene : Scene TType} (kept : Kept n scene)
    (held : scene.acquisitions[place]? = some ⟨slot, .reference, returned⟩) (latest : scene.Latest place slot)
    (ran : (Pool.releaseAt slot).run scene.pool = .ok () after) :
    Kept n ⟨after, scene.acquisitions.set place ⟨slot, .reference, true⟩⟩ := by
  cases found : scene.pool.objects[slot]? with
  | none => cases (Pool.releaseAt_outside (List.getElem?_eq_none_iff.mp found)).symm.trans ran
  | some object =>
    obtain ⟨bound, _⟩ := List.getElem?_eq_some_iff.mp found
    cases (Pool.releaseAt_run found).symm.trans ran
    have index := kept.numbered slot object found
    have pointer := kept.reference place slot returned held latest object found
    apply kept.settled ⟨slot, .reference, true⟩ held rfl
    · exact (List.length_set ..).trans kept.size
    · exact numbered_set kept.numbered bound index
    · exact kept.gives held pointer index .reference
    · -- The released acquisition is the last one of its slot, so another reference is to another slot.
      intro other otherSlot otherReturned apart otherHeld otherLatest
      apply List.getElem?_set_ne
      rintro rfl
      rcases Nat.lt_or_gt_of_ne apart with earlier | later
      · exact otherLatest place _ earlier held rfl
      · exact latest other _ later otherHeld rfl
    · intro changed present
      dsimp only at present
      rw [List.getElem?_set_self bound] at present
      cases present
      rfl

/-- Every call keeps it. -/
theorem Kept.step {scene : Scene TType} (kept : Kept n scene) (step : Step scene after) : Kept n after := by
  cases step with
  | acquired value ran => exact kept.acquired value ran
  | refused value ran =>
    obtain ⟨_, rfl⟩ := Pool.acquire_throws ran
    exact kept
  | @copied place slot returned object held latest found =>
    have same : (⟨slot, .copy object, returned⟩ : Acquisition TType).owed =
        (⟨slot, .reference, returned⟩ : Acquisition TType).owed := rfl
    apply kept.settled ⟨slot, .copy object, returned⟩ held rfl kept.size kept.numbered
    · rw [outstanding_set_same held same]
      exact kept.split
    · exact fun _ _ _ _ _ _ => rfl
    · exact ⟨kept.reference place slot returned held latest object found, kept.numbered slot object found⟩
  | released held latest ran => exact kept.released held latest ran
  | @releasedCopy _ _ place slot returned object held ran =>
    cases (Pool.release_run object scene.pool).symm.trans ran
    obtain ⟨pointer, index⟩ := kept.copy place slot object returned held
    apply kept.settled ⟨slot, .copy { object with pool_ptr := false }, true⟩ held rfl
    · exact kept.size
    · exact kept.numbered
    · exact kept.gives held pointer index _
    · exact fun _ _ _ _ _ _ => rfl
    · exact ⟨rfl, index⟩
  | @destroyedCopy _ place slot returned object held ran =>
    cases (Pool.destroyObject_run object scene.pool).symm.trans ran
    obtain ⟨pointer, index⟩ := kept.copy place slot object returned held
    apply kept.settled ⟨slot, .gone, true⟩ held rfl
    · exact kept.size
    · exact kept.numbered
    · exact kept.gives held pointer index _
    · exact fun _ _ _ _ _ _ => rfl
    · rfl

theorem kept_of_new [Inhabited TType] (small : n < 2 ^ 31)
    (built : (Pool.new n growth).run (Pool.unbuilt : Pool TType) = .ok () made) : Kept n ⟨made, []⟩ := by
  obtain ⟨capacity, ran⟩ := Pool.resize_run (Pool.unbuilt : Pool TType) n growth
  cases ran.symm.trans built
  have nothing : Pool.givenBack ((Pool.unbuilt : Pool TType).discards n) = [] := by
    rw [Pool.discards_unbuilt]
    rfl
  constructor
  · exact List.length_mapIdx.trans (Pool.resized_length ..)
  · intro slot object present
    dsimp only at present
    rw [List.getElem?_mapIdx] at present
    obtain ⟨was, found, rfl⟩ := Option.map_eq_some_iff.mp present
    obtain ⟨bound, _⟩ := List.getElem?_eq_some_iff.mp found
    rw [Pool.resized_length] at bound
    rw [Pool.castInt_eq small, if_pos bound]
  · change (_ ++ List.filterMap _ []).Perm _
    rw [nothing, Pool.castInt_eq small, List.append_nil, List.filterMap_nil, List.append_nil]
    exact List.reverse_perm _
  · intro place slot returned held
    cases held
  · intro place slot object returned held
    cases held
  · intro place slot returned held
    cases held

theorem Reached.kept [Inhabited TType] {scene : Scene TType} (reached : Reached n growth scene) (small : n < 2 ^ 31) :
    Kept n scene := by
  induction reached with
  | new built => exact kept_of_new small built
  | step _ step ih => exact ih.step step

/-- A pool of more slots than an `int` counts has no index for the last of them. -/
theorem not_exclusive_of_large [Inhabited TType] (large : ¬ n < 2 ^ 31) :
    ∃ scene : Scene TType, Reached n growth scene ∧ ¬ Exclusive n scene := by
  obtain ⟨capacity, ran⟩ := Pool.resize_run (Pool.unbuilt : Pool TType) n growth
  refine ⟨_, .new ran, fun exclusive => ?_⟩
  have listed := (exclusive.free (n - 1) (by omega)).mpr (List.not_mem_nil)
  have nothing : Pool.givenBack ((Pool.unbuilt : Pool TType).discards n) = [] := by
    rw [Pool.discards_unbuilt]
    rfl
  rw [nothing, List.append_nil, List.mem_reverse, List.mem_range] at listed
  have bound := Pool.castInt_lt n
  omega

/-- The slots of a pool are handed out exclusively in every run, exactly when
there are no more of them than an `int` can count. -/
theorem slots_exclusive_iff [Inhabited TType] (n growth : Nat) :
    (∀ scene : Scene TType, Reached n growth scene → Exclusive n scene) ↔ n < 2 ^ 31 := by
  constructor
  · intro holds
    by_contra large
    obtain ⟨scene, reached, fails⟩ := @not_exclusive_of_large TType n growth _ large
    exact fails (holds scene reached)
  · exact fun small scene reached => (reached.kept small).exclusive

/-- A pool of 2^31 slots: its constructor counts to a negative number, so no slot
is ever on the stack. -/
theorem slots_of_large_pool_lost : ¬ ∀ scene : Scene Unit, Reached (2 ^ 31) 0 scene → Exclusive (2 ^ 31) scene := by
  intro holds
  obtain ⟨scene, reached, fails⟩ := @not_exclusive_of_large Unit _ 0 _ (lt_irrefl (2 ^ 31))
  exact fails (holds scene reached)

end Scene
end Libftpp
