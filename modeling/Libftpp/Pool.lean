import Mathlib.Data.List.Nodup
import Mathlib.Data.List.Range
import Libftpp.DataBuffer

/-! The pool (`pool.hpp`, `pool.tpp`): a vector of objects, each with storage for
one value, and a stack of the indices that are free. An object that dies gives
its index back by itself, also where it is the vector that destroys it. Values
are constructed and destroyed by hand in storage that lives on, so every such
call is noted with what the storage held. -/
namespace Libftpp
open Program

/-- What is done to the storage of a value, and whether it held a live one. -/
inductive Lifetime where
  | constructed (live : Bool)
  | destroyed (live : Bool)
  | freed (live : Bool)
  deriving DecidableEq

/-- `Pool<TType>::Object`. The pointer to the pool is there or null. -/
structure PoolObject (TType : Type) where
  pool_ptr : Bool
  idx : Nat
  myself : Option TType

/-- The object once the value in it has been destroyed. -/
def PoolObject.emptied {TType : Type} (object : PoolObject TType) : PoolObject TType := { object with myself := none }

/-- `class Pool`. The top of the stack comes first; `capacity` is that of the
vector. The last component only records. -/
structure Pool (TType : Type) where
  available : List Nat
  objects : List (PoolObject TType)
  capacity : Nat
  lifetimes : List Lifetime

/-- `static_cast<int>` of a `size_t`. -/
def castInt (number : Nat) : Int := (Int32.ofNat number).toInt

namespace Pool
variable {TType : Type}

/-- The pool before its constructor has resized it. -/
def unbuilt : Pool TType := ⟨[], [], 0, []⟩

/-! ### Objects -/

/-- `Pool::Object::Object()` with the value `TType()` gives. -/
def newObject [Inhabited TType] : PoolObject TType := ⟨false, 0, some default⟩

/-- `Pool::release`. The object is passed by reference. -/
def release (object : PoolObject TType) : Program Exn (Pool TType) (PoolObject TType) :=
  if object.pool_ptr then do
    modify fun pool => { pool with available := object.idx :: pool.available }
    pure { object with pool_ptr := false }
  else pure object

/-- `Pool::Object::~Object`. -/
def destroyObject (object : PoolObject TType) : Program Exn (Pool TType) Unit :=
  if object.pool_ptr then do
    let _released ← release object
    pure ()
  else pure ()

/-- Does something with the object at this index, if there is one. -/
def onObject (index : Nat) (change : PoolObject TType → PoolObject TType)
    (note : PoolObject TType → List Lifetime) : Program Exn (Pool TType) Unit := do
  let pool ← get
  match pool.objects[index]? with
  | none => undefinedBehaviour
  | some object => set { pool with
      objects := pool.objects.set index (change object)
      lifetimes := pool.lifetimes ++ note object }

/-- `pool.release(obj)` for a reference to the object at this index. -/
def releaseAt (index : Nat) : Program Exn (Pool TType) Unit := do
  let pool ← get
  match pool.objects[index]? with
  | none => undefinedBehaviour
  | some object =>
    let released ← release object
    onObject index (fun _ => released) fun _ => []

/-! ### The vector -/

/-- `obj.get()->~TType()` for every object of the vector. -/
def destroyValues : Program Exn (Pool TType) Unit :=
  modify fun pool => { pool with
    objects := pool.objects.map PoolObject.emptied
    lifetimes := pool.lifetimes ++ pool.objects.map fun object => .destroyed object.myself.isSome }

/-- The vector destroys these objects and gives their storage up. -/
def discardObjects (objects : List (PoolObject TType)) : Program Exn (Pool TType) Unit := do
  objects.forM destroyObject
  modify fun pool => { pool with
    lifetimes := pool.lifetimes ++ objects.map fun object => .freed object.myself.isSome }

/-- The vector makes so many objects at its end. -/
def appendObjects [Inhabited TType] (count : Nat) : Program Exn (Pool TType) Unit :=
  modify fun pool => { pool with
    objects := pool.objects ++ List.replicate count newObject
    lifetimes := pool.lifetimes ++ List.replicate count (.constructed false) }

/-- `_objects.resize`. Beyond its capacity the vector copies every object to new
storage, of this much more room than needed, and destroys the old ones; a value
moves with its bytes. -/
def resizeVector [Inhabited TType] (numberOfObjectStored growth : Nat) : Program Exn (Pool TType) Unit := do
  let pool ← get
  if numberOfObjectStored ≤ pool.objects.length then
    discardObjects (pool.objects.drop numberOfObjectStored)
    modify fun pool => { pool with objects := pool.objects.take numberOfObjectStored }
  else
    appendObjects (numberOfObjectStored - pool.objects.length)
    if numberOfObjectStored ≤ pool.capacity then pure ()
    else
      pool.objects.forM destroyObject
      modify fun pool => { pool with capacity := numberOfObjectStored + growth }

/-! ### The pool -/

/-- The last loop of `resize`, from this index on. -/
def numberFrom (index : Nat) : Nat → Program Exn (Pool TType) Unit
  | 0 => pure ()
  | remaining + 1 => do
    onObject index (fun object => { object with idx := index }) fun _ => []
    modify fun pool => { pool with available := index :: pool.available }
    numberFrom (index + 1) remaining

/-- `Pool::resize`. -/
def resize [Inhabited TType] (numberOfObjectStored growth : Nat) : Program Exn (Pool TType) Unit := do
  destroyValues
  modify fun pool => { pool with available := [] }
  resizeVector numberOfObjectStored growth
  numberFrom 0 (castInt numberOfObjectStored).toNat

/-- `Pool::acquire`, with the value the constructor of `TType` makes. The result
is the index of the object referred to. -/
def acquire (value : TType) : Program Exn (Pool TType) Nat := do
  let pool ← get
  match pool.available with
  | [] => raise (.outOfRange "No available objects in the pool. Maybe try to increase its size.")
  | i :: rest =>
    set { pool with available := rest }
    onObject i (fun object => { object with pool_ptr := true }) fun _ => []
    onObject i PoolObject.emptied fun object => [.destroyed object.myself.isSome]
    onObject i (fun object => { object with myself := some value }) fun object => [.constructed object.myself.isSome]
    pure i

/-- `Pool::~Pool`, and after it the destructor of the vector. -/
def destroy : Program Exn (Pool TType) Unit := do
  destroyValues
  modify fun pool => { pool with available := [] }
  let pool ← get
  discardObjects pool.objects
  modify fun pool => { pool with objects := [] }

/-! ### What the calls do -/

/-- The indices that objects give back when they die, the last one first. -/
def givenBack (objects : List (PoolObject TType)) : List Nat :=
  ((objects.filter PoolObject.pool_ptr).map PoolObject.idx).reverse

/-- The objects that the vector destroys in a `resize`. -/
def discards (pool : Pool TType) (numberOfObjectStored : Nat) : List (PoolObject TType) :=
  if numberOfObjectStored ≤ pool.objects.length then pool.objects.drop numberOfObjectStored
  else if numberOfObjectStored ≤ pool.capacity then [] else pool.objects

@[simp] theorem destroyObject_run (object : PoolObject TType) (pool : Pool TType) :
    (destroyObject object).run pool = .ok () { pool with available := givenBack [object] ++ pool.available } := by
  cases held : object.pool_ptr <;> simp [destroyObject, release, givenBack, held]

theorem destroyObjects_run (objects : List (PoolObject TType)) (pool : Pool TType) :
    (objects.forM destroyObject).run pool = .ok () { pool with available := givenBack objects ++ pool.available } := by
  induction objects generalizing pool with
  | nil => rfl
  | cons object objects ih =>
    refine bind_returns.mpr ⟨(), _, destroyObject_run object pool, (ih _).trans ?_⟩
    cases held : object.pool_ptr <;> simp [givenBack, held]

theorem givenBack_map (change : PoolObject TType → PoolObject TType)
    (held : ∀ object, (change object).pool_ptr = object.pool_ptr) (index : ∀ object, (change object).idx = object.idx)
    (objects : List (PoolObject TType)) : givenBack (objects.map change) = givenBack objects := by
  rw [givenBack, List.filter_map, List.map_map, givenBack]
  congr 1
  have same : (PoolObject.pool_ptr ∘ change) = @PoolObject.pool_ptr TType := funext held
  rw [same]
  exact List.map_congr_left fun object _ => index object

theorem onObject_run (pool : Pool TType) (found : pool.objects[index]? = some object)
    (change : PoolObject TType → PoolObject TType) (note : PoolObject TType → List Lifetime) :
    (onObject index change note).run pool = .ok ()
      { pool with
        objects := pool.objects.set index (change object)
        lifetimes := pool.lifetimes ++ note object } := by
  rw [onObject, EStateM.run_bind, EStateM.run_get]
  simp only [found]
  rfl

theorem onObject_outside (pool : Pool TType) (outside : pool.objects.length ≤ index)
    (change : PoolObject TType → PoolObject TType) (note : PoolObject TType → List Lifetime) :
    (onObject index change note).run pool = .error .undefined pool := by
  rw [onObject, EStateM.run_bind, EStateM.run_get]
  simp only [List.getElem?_eq_none outside]
  rfl

theorem acquire_empty {pool : Pool TType} (empty : pool.available = []) (value : TType) :
    (acquire value).run pool = .error (.thrown (.outOfRange
      "No available objects in the pool. Maybe try to increase its size.")) pool := by
  rw [acquire, EStateM.run_bind, EStateM.run_get]
  simp only [empty]
  rfl

/-- `acquire` hands out the top of the stack. -/
theorem acquire_run {pool : Pool TType} {i : Nat} {rest : List Nat} (top : pool.available = i :: rest)
    (found : pool.objects[i]? = some object) (value : TType) :
    (acquire value).run pool = .ok i
      { pool with
        available := rest
        objects := pool.objects.set i ⟨true, object.idx, some value⟩
        lifetimes := pool.lifetimes ++ [.destroyed object.myself.isSome, .constructed false] } := by
  obtain ⟨inside, _⟩ := List.getElem?_eq_some_iff.mp found
  have here (changed : PoolObject TType) : (pool.objects.set i changed)[i]? = some changed :=
    List.getElem?_set_self inside
  rw [acquire, EStateM.run_bind, EStateM.run_get]
  simp only [top, EStateM.run_bind, EStateM.run_set]
  rw [onObject_run { pool with available := rest } found]
  simp only
  rw [onObject_run _ (here _)]
  simp only [List.set_set]
  rw [onObject_run _ (here _)]
  simp [PoolObject.emptied]

theorem acquire_outside {pool : Pool TType} {i : Nat} {rest : List Nat} (top : pool.available = i :: rest)
    (outside : pool.objects.length ≤ i) (value : TType) :
    (acquire value).run pool = .error .undefined { pool with available := rest } := by
  rw [acquire, EStateM.run_bind, EStateM.run_get]
  simp only [top, EStateM.run_bind, EStateM.run_set]
  rw [onObject_outside { pool with available := rest } outside]

/-- An `acquire` that returns has found an index and an object. -/
theorem acquire_returns {pool after : Pool TType} {slot : Nat} (ran : (acquire value).run pool = .ok slot after) :
    ∃ rest object, pool.available = slot :: rest ∧ pool.objects[slot]? = some object ∧ after =
      { pool with
        available := rest
        objects := pool.objects.set slot ⟨true, object.idx, some value⟩
        lifetimes := pool.lifetimes ++ [.destroyed object.myself.isSome, .constructed false] } := by
  cases top : pool.available with
  | nil => cases (acquire_empty top value).symm.trans ran
  | cons i rest =>
    cases found : pool.objects[i]? with
    | none => cases (acquire_outside top (List.getElem?_eq_none_iff.mp found) value).symm.trans ran
    | some object =>
      cases (acquire_run top found value).symm.trans ran
      exact ⟨rest, object, rfl, found, rfl⟩

/-- One that throws has found none. -/
theorem acquire_throws {pool after : Pool TType} (ran : (acquire value).run pool = .error (.thrown error) after) :
    pool.available = [] ∧ after = pool := by
  cases top : pool.available with
  | nil =>
    cases (acquire_empty top value).symm.trans ran
    exact ⟨rfl, rfl⟩
  | cons i rest =>
    cases found : pool.objects[i]? with
    | none => cases (acquire_outside top (List.getElem?_eq_none_iff.mp found) value).symm.trans ran
    | some object => cases (acquire_run top found value).symm.trans ran

theorem release_run (object : PoolObject TType) (pool : Pool TType) :
    (release object).run pool = .ok { object with pool_ptr := false }
      { pool with available := givenBack [object] ++ pool.available } := by
  cases object with
  | mk pool_ptr idx myself => cases pool_ptr <;> simp [release, givenBack]

theorem releaseAt_run {pool : Pool TType} (found : pool.objects[index]? = some object) :
    (releaseAt index).run pool = .ok ()
      { pool with
        available := givenBack [object] ++ pool.available
        objects := pool.objects.set index { object with pool_ptr := false } } := by
  rw [releaseAt, EStateM.run_bind, EStateM.run_get]
  simp only [found, EStateM.run_bind, release_run]
  rw [onObject_run { pool with available := givenBack [object] ++ pool.available } found]
  simp

theorem releaseAt_outside {pool : Pool TType} (outside : pool.objects.length ≤ index) :
    (releaseAt index).run pool = .error .undefined pool := by
  rw [releaseAt, EStateM.run_bind, EStateM.run_get]
  simp only [List.getElem?_eq_none outside]
  rfl

/-- The last loop of `resize` numbers the objects it reaches. -/
theorem numberFrom_run {pool : Pool TType} (inside : index + count ≤ pool.objects.length) :
    (numberFrom index count).run pool = .ok ()
      { pool with
        available := (List.range' index count).reverse ++ pool.available
        objects := pool.objects.mapIdx fun place object =>
          if index ≤ place ∧ place < index + count then { object with idx := place } else object } := by
  induction count generalizing index pool with
  | zero =>
    have same : (pool.objects.mapIdx fun place object =>
        if index ≤ place ∧ place < index + 0 then { object with idx := place } else object) = pool.objects := by
      apply List.ext_getElem (by simp)
      intro place _ _
      rw [List.getElem_mapIdx, if_neg (by omega)]
    rw [same]
    rfl
  | succ count ih =>
    have found : pool.objects[index]? = some pool.objects[index] := List.getElem?_eq_getElem _
    rw [numberFrom, EStateM.run_bind, onObject_run pool found]
    simp only [EStateM.run_bind, EStateM.run_modify]
    rw [ih (by simpa using by omega)]
    have numbered : ((pool.objects.set index { pool.objects[index] with idx := index }).mapIdx fun place object =>
        if index + 1 ≤ place ∧ place < index + 1 + count then { object with idx := place } else object) =
        pool.objects.mapIdx fun place object =>
          if index ≤ place ∧ place < index + (count + 1) then { object with idx := place } else object := by
      apply List.ext_getElem (by simp)
      intro place _ _
      rw [List.getElem_mapIdx, List.getElem_mapIdx, List.getElem_set]
      by_cases here : index = place
      · subst here
        rw [if_neg (by omega), if_pos rfl, if_pos (by omega)]
      · rw [if_neg here]
        exact if_congr (by omega) rfl rfl
    rw [numbered, List.range'_succ, List.reverse_cons]
    simp

theorem castInt_eq {number : Nat} (small : number < 2 ^ 31) : (castInt number).toNat = number := by
  rw [castInt, Int32.toInt_ofNat_of_lt small, Int.toNat_natCast]

theorem castInt_lt (number : Nat) : (castInt number).toNat < 2 ^ 31 := by
  have bound := Int32.toInt_lt (Int32.ofNat number)
  rw [castInt]
  omega

theorem castInt_le (number : Nat) : (castInt number).toNat ≤ number := by
  by_cases small : number < 2 ^ 31
  · rw [castInt_eq small]
  · have bound := castInt_lt number
    omega

/-- The objects in the vector after a `resize`, before they are numbered. -/
def resized [Inhabited TType] (pool : Pool TType) (numberOfObjectStored : Nat) : List (PoolObject TType) :=
  (pool.objects.map PoolObject.emptied).take numberOfObjectStored ++
    List.replicate (numberOfObjectStored - pool.objects.length) newObject

/-- What a `resize` does to storage. -/
def resizeNotes (pool : Pool TType) (numberOfObjectStored : Nat) : List Lifetime :=
  (pool.objects.map fun object => .destroyed object.myself.isSome) ++
    (List.replicate (pool.objects.length - numberOfObjectStored) (.freed false) ++
      List.replicate (numberOfObjectStored - pool.objects.length) (.constructed false))

theorem resized_length [Inhabited TType] (pool : Pool TType) (numberOfObjectStored : Nat) :
    (pool.resized numberOfObjectStored).length = numberOfObjectStored := by
  simp [resized]
  omega

/-- What `_objects.resize` does to a vector whose values have been destroyed. -/
theorem resizeVector_run [Inhabited TType] (pool : Pool TType) (numberOfObjectStored growth : Nat) :
    ∃ capacity, (resizeVector numberOfObjectStored growth).run
        { pool with
          objects := pool.objects.map PoolObject.emptied
          available := []
          lifetimes := pool.lifetimes ++ pool.objects.map fun object => .destroyed object.myself.isSome } = .ok ()
      { available := givenBack (pool.discards numberOfObjectStored)
        objects := pool.resized numberOfObjectStored
        capacity
        lifetimes := pool.lifetimes ++ pool.resizeNotes numberOfObjectStored } := by
  have same (objects : List (PoolObject TType)) :
      givenBack (objects.map PoolObject.emptied) = givenBack objects :=
    givenBack_map PoolObject.emptied (fun _ => rfl) (fun _ => rfl) objects
  rw [resizeVector, EStateM.run_bind, EStateM.run_get]
  by_cases shrinks : numberOfObjectStored ≤ pool.objects.length
  · refine ⟨pool.capacity, ?_⟩
    have none : numberOfObjectStored - pool.objects.length = 0 := by omega
    have freed : ((pool.objects.drop numberOfObjectStored).map fun _ => Lifetime.freed false) =
        List.replicate (pool.objects.length - numberOfObjectStored) (.freed false) := by
      rw [List.map_const', List.length_drop]
    simp only [List.length_map, if_pos shrinks, discardObjects, EStateM.run_bind, destroyObjects_run,
      EStateM.run_modify, discards, resized, resizeNotes, none, List.replicate_zero, List.append_nil]
    rw [← List.map_drop, same, List.map_map, ← freed, List.append_assoc]
    rfl
  · have none : pool.objects.length - numberOfObjectStored = 0 := by omega
    have whole : (pool.objects.map PoolObject.emptied).take numberOfObjectStored =
        pool.objects.map PoolObject.emptied := List.take_of_length_le (by rw [List.length_map]; omega)
    by_cases room : numberOfObjectStored ≤ pool.capacity
    · refine ⟨pool.capacity, ?_⟩
      simp only [List.length_map, if_neg shrinks, if_pos room, appendObjects, EStateM.run_bind,
        EStateM.run_modify, discards, resized, resizeNotes, none, whole, List.replicate_zero, List.nil_append,
        List.append_assoc]
      rfl
    · refine ⟨numberOfObjectStored + growth, ?_⟩
      simp only [List.length_map, if_neg shrinks, if_neg room, appendObjects, EStateM.run_bind,
        destroyObjects_run, EStateM.run_modify, discards, resized, resizeNotes, none, whole, List.replicate_zero,
        List.nil_append, List.append_assoc, same, List.append_nil]

/-- What `resize` leaves. The indices that dying objects gave back lie at the
bottom of the stack. -/
theorem resize_run [Inhabited TType] (pool : Pool TType) (numberOfObjectStored growth : Nat) :
    ∃ capacity, (resize numberOfObjectStored growth).run pool = .ok ()
      { available := (List.range (castInt numberOfObjectStored).toNat).reverse ++
          givenBack (pool.discards numberOfObjectStored)
        objects := (pool.resized numberOfObjectStored).mapIdx fun place object =>
          if place < (castInt numberOfObjectStored).toNat then { object with idx := place } else object
        capacity
        lifetimes := pool.lifetimes ++ pool.resizeNotes numberOfObjectStored } := by
  obtain ⟨capacity, ran⟩ := resizeVector_run pool numberOfObjectStored growth
  refine ⟨capacity, ?_⟩
  have inside : 0 + (castInt numberOfObjectStored).toNat ≤ (pool.resized numberOfObjectStored).length := by
    rw [resized_length, Nat.zero_add]
    exact castInt_le numberOfObjectStored
  rw [resize]
  simp only [destroyValues, EStateM.run_bind, EStateM.run_modify, ran]
  rw [numberFrom_run inside]
  simp only [Nat.zero_le, true_and, Nat.zero_add, List.range_eq_range']

/-- An empty vector has nothing to destroy. -/
theorem discards_unbuilt (numberOfObjectStored : Nat) :
    (unbuilt : Pool TType).discards numberOfObjectStored = [] := by
  unfold discards
  split
  · exact List.drop_nil
  · split <;> rfl

/-- `Pool::Pool`. -/
def new [Inhabited TType] (size growth : Nat) : Program Exn (Pool TType) Unit := resize size growth

end Pool
end Libftpp
