import Libftpp.PoolResize

/-! The handles of one acquisition: the reference that `acquire` returned, and
the objects copied from it and from each other. Whether a handle still has to
give the slot back stands in the handle, and a copy takes this over; so does the
object the reference leads to when its slot is handed out anew. The slot is given
back once for the acquisition itself, once more for every copy made of a handle
that still had to, and once more for every release through the reference after
the slot has been handed out anew. -/
namespace Libftpp
open Program

/-- A pool and the copies of one acquisition; `none` once a copy is destroyed. -/
structure Handles (TType : Type) where
  pool : Pool TType
  copies : List (Option (PoolObject TType))

namespace Handles
variable {TType : Type}

/-- What has been done: a handle copied, and whether it still had to give the
slot back; the reference released; a copy released or destroyed; an acquire of
somebody else, and the slot it got. -/
inductive Deed where
  | copied (owing : Bool)
  | released
  | settled
  | acquired (slot : Option Nat)
  deriving DecidableEq

/-- One use of the handles to this slot, or an acquire of somebody else. -/
inductive Step (slot : Nat) (before : Handles TType) : Deed → Handles TType → Prop where
  | copiedReference {object : PoolObject TType} (found : before.pool.objects[slot]? = some object) :
      Step slot before (.copied object.pool_ptr) ⟨before.pool, before.copies ++ [some object]⟩
  | copiedCopy {place : Nat} {object : PoolObject TType} (held : before.copies[place]? = some (some object)) :
      Step slot before (.copied object.pool_ptr) ⟨before.pool, before.copies ++ [some object]⟩
  | releasedReference (ran : (Pool.releaseAt slot).run before.pool = .ok () after) :
      Step slot before .released ⟨after, before.copies⟩
  | releasedCopy {place : Nat} {object : PoolObject TType} (held : before.copies[place]? = some (some object))
      (ran : (Pool.release object).run before.pool = .ok left after) :
      Step slot before .settled ⟨after, before.copies.set place (some left)⟩
  | destroyedCopy {place : Nat} {object : PoolObject TType} (held : before.copies[place]? = some (some object))
      (ran : (Pool.destroyObject object).run before.pool = .ok () after) :
      Step slot before .settled ⟨after, before.copies.set place none⟩
  | acquired (value : TType) (ran : (Pool.acquire value).run before.pool = .ok other after) :
      Step slot before (.acquired (some other)) ⟨after, before.copies⟩
  | refused (value : TType) (ran : (Pool.acquire value).run before.pool = .error (.thrown error) after) :
      Step slot before (.acquired none) ⟨after, before.copies⟩

/-- Any number of them, after the `acquire`. -/
inductive Run (slot : Nat) (start : Pool TType) : List Deed → Handles TType → Prop where
  | begin : Run slot start [] ⟨start, []⟩
  | step (run : Run slot start deeds before) (step : Step slot before deed after) :
      Run slot start (deeds ++ [deed]) after

/-- Where the reference stands: it has not been released yet, it has, or its slot
has been handed out anew since. -/
inductive Phase where
  | held
  | returned
  | anew
  deriving DecidableEq

def Phase.next (slot : Nat) : Phase → Deed → Phase
  | _, .released => .returned
  | .returned, .acquired other => if other = some slot then .anew else .returned
  | phase, _ => phase

/-- Where it stands after all this. -/
def phaseAfter (slot : Nat) (deeds : List Deed) : Phase := deeds.foldl (Phase.next slot) .held

/-- How often the reference is released although its slot has been handed out anew. -/
def staleFrom (slot : Nat) : Phase → List Deed → Nat
  | _, [] => 0
  | phase, deed :: deeds =>
    (if phase = .anew ∧ deed = .released then 1 else 0) + staleFrom slot (phase.next slot deed) deeds

/-- Since the acquisition the slot has been put on the stack once: it is there as
often as before, but for this and for the times it has been handed out. -/
def GivenBackOnce (slot : Nat) (start : Pool TType) (deeds : List Deed) (handles : Handles TType) : Prop :=
  handles.pool.available.count slot + deeds.count (.acquired (some slot)) = start.available.count slot + 1

/-- The reference has been released and all copies have been destroyed. -/
def AllSettled (deeds : List Deed) (handles : Handles TType) : Prop :=
  .released ∈ deeds ∧ ∀ copy ∈ handles.copies, copy = none

/-! ### Phases -/

@[simp] theorem phaseAfter_snoc (slot : Nat) (deeds : List Deed) (deed : Deed) :
    phaseAfter slot (deeds ++ [deed]) = (phaseAfter slot deeds).next slot deed := by
  simp [phaseAfter]

@[simp] theorem Phase.next_copied (slot : Nat) (phase : Phase) (owing : Bool) :
    phase.next slot (.copied owing) = phase := by
  cases phase <;> rfl

@[simp] theorem Phase.next_settled (slot : Nat) (phase : Phase) : phase.next slot .settled = phase := by
  cases phase <;> rfl

@[simp] theorem Phase.next_released (slot : Nat) (phase : Phase) : phase.next slot .released = .returned := by
  cases phase <;> rfl

theorem Phase.next_acquired_other (phase : Phase) {other : Option Nat} (apart : other ≠ some slot) :
    phase.next slot (.acquired other) = phase := by
  cases phase with
  | returned => exact if_neg apart
  | _ => rfl

theorem Phase.next_acquired_own (slot : Nat) (phase : Phase) :
    phase.next slot (.acquired (some slot)) = if phase = .returned then .anew else phase := by
  cases phase <;> simp [Phase.next]

theorem staleFrom_snoc (slot : Nat) (phase : Phase) (deeds : List Deed) (deed : Deed) :
    staleFrom slot phase (deeds ++ [deed]) = staleFrom slot phase deeds +
      if deeds.foldl (Phase.next slot) phase = .anew ∧ deed = .released then 1 else 0 := by
  induction deeds generalizing phase with
  | nil => exact Nat.add_comm ..
  | cons first deeds ih =>
    rw [List.cons_append, staleFrom, ih, staleFrom, List.foldl_cons]
    omega

/-- What a deed other than a release through the reference adds. -/
theorem staleFrom_other (slot : Nat) (deeds : List Deed) {deed : Deed} (other : deed ≠ .released) :
    staleFrom slot .held (deeds ++ [deed]) = staleFrom slot .held deeds := by
  simp [staleFrom_snoc, other]

theorem staleFrom_released (slot : Nat) (deeds : List Deed) :
    staleFrom slot .held (deeds ++ [.released]) =
      staleFrom slot .held deeds + if phaseAfter slot deeds = .anew then 1 else 0 := by
  rw [staleFrom_snoc]
  congr 1
  exact if_congr (and_iff_left rfl) rfl rfl

theorem Phase.next_ne_held {phase : Phase} (released : phase ≠ .held) (deed : Deed) :
    phase.next slot deed ≠ .held := by
  cases phase with
  | held => exact absurd rfl released
  | returned =>
    cases deed with
    | acquired other =>
      unfold Phase.next
      dsimp only
      split <;> exact Phase.noConfusion
    | _ => simp
  | anew => cases deed <;> exact Phase.noConfusion

/-- Once released, the reference is never again as it was handed out. -/
theorem phaseAfter_ne_held {slot : Nat} {deeds : List Deed} (released : .released ∈ deeds) :
    phaseAfter slot deeds ≠ .held := by
  induction deeds using List.reverseRecOn with
  | nil => exact absurd released List.not_mem_nil
  | append_singleton deeds deed ih =>
    rw [phaseAfter_snoc]
    rcases List.mem_append.mp released with before | last
    · exact Phase.next_ne_held (ih before) deed
    · rw [← List.mem_singleton.mp last, Phase.next_released]
      exact Phase.noConfusion

/-! ### The account of an acquisition -/

/-- The copies that still have to give the slot back. -/
def owing (copies : List (Option (PoolObject TType))) : Nat := copies.countP (Option.any PoolObject.pool_ptr)

theorem owing_snoc (copies : List (Option (PoolObject TType))) (object : PoolObject TType) :
    owing (copies ++ [some object]) = owing copies + object.pool_ptr.toNat := by
  cases held : object.pool_ptr <;> simp [owing, held]

/-- A copy that is released or destroyed owes nothing more. -/
theorem owing_set {copies : List (Option (PoolObject TType))} {place : Nat} {object : PoolObject TType}
    {settled : Option (PoolObject TType)} (held : copies[place]? = some (some object))
    (nothing : settled.any PoolObject.pool_ptr = false) :
    owing (copies.set place settled) + object.pool_ptr.toNat = owing copies := by
  obtain ⟨inside, here⟩ := List.getElem?_eq_some_iff.mp held
  unfold owing
  rw [List.countP_set inside, here, nothing]
  cases pointer : object.pool_ptr with
  | false => simp [pointer]
  | true =>
    have some : 0 < copies.countP (Option.any PoolObject.pool_ptr) :=
      List.countP_pos_iff.mpr ⟨_, List.mem_of_getElem? held, pointer⟩
    simp only [Option.any_some, pointer, ↓reduceIte, Bool.false_eq_true, Bool.toNat_true]
    omega

theorem owing_eq_zero {copies : List (Option (PoolObject TType))} (gone : ∀ copy ∈ copies, copy = none) :
    owing copies = 0 := by
  rw [owing, List.countP_eq_zero]
  intro copy member
  rw [gone copy member]
  exact Bool.noConfusion

/-- Where a handle's index comes onto the stack, if it still has to give it back. -/
theorem count_givenBack (slot : Nat) (object : PoolObject TType) (available : List Nat) :
    (Pool.givenBack [object] ++ available).count slot =
      available.count slot + object.pool_ptr.toNat * if object.idx = slot then 1 else 0 := by
  cases pointer : object.pool_ptr <;> simp [Pool.givenBack, pointer, List.count_cons]

/-- A handle that gives back what it owes is one more in the account of the stack. -/
theorem stacked_givenBack {object : PoolObject TType} {start available : List Nat} {deeds : List Deed} {deed : Deed}
    (own : object.idx = index)
    (stack : available.count slot + deeds.count (.acquired (some slot)) =
      start.count slot + given * (if index = slot then 1 else 0))
    (other : deed ≠ .acquired (some slot)) :
    (Pool.givenBack [object] ++ available).count slot + (deeds ++ [deed]).count (.acquired (some slot)) =
      start.count slot + (given + object.pool_ptr.toNat) * (if index = slot then 1 else 0) := by
  rw [count_givenBack, own, Nat.add_mul, List.count_append, List.count_singleton, beq_eq_false_iff_ne.mpr other,
    if_neg Bool.false_ne_true]
  omega

/-- What every run keeps. All handles carry the index of the object, and this
many times one of them has given it back. -/
structure Balance (slot index : Nat) (start : Pool TType) (deeds : List Deed) (handles : Handles TType) : Prop where
  reference : ∃ object : PoolObject TType, handles.pool.objects[slot]? = some object ∧ object.idx = index ∧
    (object.pool_ptr = false ↔ phaseAfter slot deeds = .returned)
  copies : ∀ object : PoolObject TType, some object ∈ handles.copies → object.idx = index
  account : ∃ given, handles.pool.available.count slot + deeds.count (.acquired (some slot)) =
      start.available.count slot + given * (if index = slot then 1 else 0) ∧
    given + owing handles.copies + (if phaseAfter slot deeds = .held then 1 else 0) =
      1 + deeds.count (.copied true) + staleFrom slot .held deeds

theorem Balance.copied {object : PoolObject TType} (balance : Balance slot index start deeds handles)
    (same : object.idx = index) :
    Balance slot index start (deeds ++ [.copied object.pool_ptr]) ⟨handles.pool, handles.copies ++ [some object]⟩ := by
  obtain ⟨given, stack, books⟩ := balance.account
  constructor
  · simpa using balance.reference
  · intro other member
    rcases List.mem_append.mp member with old | new
    · exact balance.copies other old
    · cases List.mem_singleton.mp new
      exact same
  · refine ⟨given, by simpa using stack, ?_⟩
    rw [owing_snoc, staleFrom_other slot deeds Deed.noConfusion, phaseAfter_snoc, Phase.next_copied, List.count_append]
    cases held : object.pool_ptr <;> simp <;> omega

/-- A copy is released or destroyed, and what is left of it owes nothing. -/
theorem Balance.settled {place : Nat} {object : PoolObject TType} {left : Option (PoolObject TType)}
    (balance : Balance slot index start deeds handles) (held : handles.copies[place]? = some (some object))
    (nothing : left.any PoolObject.pool_ptr = false) (same : ∀ other, left = some other → other.idx = object.idx) :
    Balance slot index start (deeds ++ [.settled])
      ⟨{ handles.pool with available := Pool.givenBack [object] ++ handles.pool.available },
        handles.copies.set place left⟩ := by
  obtain ⟨given, stack, books⟩ := balance.account
  have own := balance.copies object (List.mem_of_getElem? held)
  constructor
  · simpa using balance.reference
  · intro other member
    rcases List.mem_or_eq_of_mem_set member with old | new
    · exact balance.copies other old
    · exact (same other new.symm).trans own
  · refine ⟨given + object.pool_ptr.toNat, stacked_givenBack own stack nofun, ?_⟩
    have paid := owing_set held nothing
    rw [staleFrom_other slot deeds Deed.noConfusion, phaseAfter_snoc, Phase.next_settled, List.count_append]
    simp only [List.count_singleton, beq_iff_eq, reduceCtorEq, ↓reduceIte]
    omega

theorem Balance.released (balance : Balance slot index start deeds handles)
    (ran : (Pool.releaseAt slot).run handles.pool = .ok () after) :
    Balance slot index start (deeds ++ [.released]) ⟨after, handles.copies⟩ := by
  obtain ⟨given, stack, books⟩ := balance.account
  obtain ⟨object, found, own, pointer⟩ := balance.reference
  obtain ⟨inside, _⟩ := List.getElem?_eq_some_iff.mp found
  cases (Pool.releaseAt_run found).symm.trans ran
  constructor
  · exact ⟨_, List.getElem?_set_self inside, own, by simp⟩
  · exact balance.copies
  · refine ⟨given + object.pool_ptr.toNat, stacked_givenBack own stack nofun, ?_⟩
    rw [staleFrom_released, phaseAfter_snoc, Phase.next_released, List.count_append]
    simp only [List.count_singleton, beq_iff_eq, reduceCtorEq, ↓reduceIte]
    -- the reference owes the slot unless it has been returned and not been handed out since
    cases phase : phaseAfter slot deeds <;> cases owes : object.pool_ptr <;> simp_all <;> omega

theorem Balance.acquired (balance : Balance slot index start deeds handles) (value : TType)
    (ran : (Pool.acquire value).run handles.pool = .ok other after) :
    Balance slot index start (deeds ++ [.acquired (some other)]) ⟨after, handles.copies⟩ := by
  obtain ⟨given, stack, books⟩ := balance.account
  obtain ⟨object, found, own, pointer⟩ := balance.reference
  obtain ⟨inside, _⟩ := List.getElem?_eq_some_iff.mp found
  obtain ⟨rest, taken, top, present, rfl⟩ := Pool.acquire_returns ran
  rw [top] at stack
  by_cases here : other = slot
  · subst here
    cases present.symm.trans found
    constructor
    · refine ⟨_, List.getElem?_set_self inside, own, ?_⟩
      rw [phaseAfter_snoc, Phase.next_acquired_own]
      split <;> simp_all
    · exact balance.copies
    · refine ⟨given, ?_, ?_⟩
      · rw [List.count_append]
        simp only [List.count_cons_self, List.count_nil] at stack ⊢
        omega
      · rw [staleFrom_other other deeds Deed.noConfusion, phaseAfter_snoc, Phase.next_acquired_own, List.count_append]
        simp only [List.count_singleton, beq_iff_eq, reduceCtorEq, ↓reduceIte]
        cases phase : phaseAfter other deeds <;> simp_all
  · have apart : some other ≠ some slot := fun same => here (Option.some.inj same)
    constructor
    · rw [phaseAfter_snoc, Phase.next_acquired_other _ apart]
      exact ⟨object, (List.getElem?_set_ne here).trans found, own, pointer⟩
    · exact balance.copies
    · refine ⟨given, ?_, ?_⟩
      · have another : Deed.acquired (some other) ≠ .acquired (some slot) := fun same => apart (Deed.acquired.inj same)
        rw [List.count_cons_of_ne here] at stack
        rw [List.count_append, List.count_singleton, beq_eq_false_iff_ne.mpr another, if_neg Bool.false_ne_true]
        exact stack
      · rw [staleFrom_other slot deeds Deed.noConfusion, phaseAfter_snoc, Phase.next_acquired_other _ apart,
          List.count_append]
        simp only [List.count_singleton, beq_iff_eq, reduceCtorEq, ↓reduceIte]
        omega

/-- Nothing happens when there is no slot for somebody else. -/
theorem Balance.refused (balance : Balance slot index start deeds handles) :
    Balance slot index start (deeds ++ [.acquired none]) handles := by
  obtain ⟨given, stack, books⟩ := balance.account
  have still : phaseAfter slot (deeds ++ [.acquired none]) = phaseAfter slot deeds := by
    rw [phaseAfter_snoc, Phase.next_acquired_other _ (Option.some_ne_none slot).symm]
  constructor
  · rw [still]
    exact balance.reference
  · exact balance.copies
  · refine ⟨given, by simpa using stack, ?_⟩
    rw [staleFrom_other slot deeds Deed.noConfusion, still]
    simpa using books

/-- Every use of a handle keeps it. -/
theorem Balance.step (balance : Balance slot index start deeds before) (step : Step slot before deed after) :
    Balance slot index start (deeds ++ [deed]) after := by
  cases step with
  | copiedReference found =>
    obtain ⟨object, there, own, _⟩ := balance.reference
    cases found.symm.trans there
    exact balance.copied own
  | copiedCopy held => exact balance.copied (balance.copies _ (List.mem_of_getElem? held))
  | releasedReference ran => exact balance.released ran
  | @releasedCopy left after place object held ran =>
    cases (Pool.release_run object before.pool).symm.trans ran
    apply balance.settled held rfl
    intro other same
    cases same
    rfl
  | @destroyedCopy after place object held ran =>
    cases (Pool.destroyObject_run object before.pool).symm.trans ran
    exact balance.settled held rfl nofun
  | acquired value ran => exact balance.acquired value ran
  | refused value ran =>
    obtain ⟨_, rfl⟩ := Pool.acquire_throws ran
    exact balance.refused

theorem Run.balance {object : PoolObject TType} (found : start.objects[slot]? = some object)
    (pointer : object.pool_ptr = true) (run : Run slot start deeds handles) :
    Balance slot object.idx start deeds handles := by
  induction run with
  | begin =>
    constructor
    · refine ⟨object, found, rfl, ?_⟩
      rw [pointer]
      exact ⟨nofun, nofun⟩
    · exact fun _ member => (List.not_mem_nil member).elim
    · exact ⟨0, by simp, rfl⟩
  | step _ step ih => exact ih.step step

/-- Any use of the handles of an acquisition, up to where the reference has been
released and all copies have been destroyed, has given the slot back exactly once,
if and only if the object has its place as its index, no handle has been copied
that still had to give the slot back, and the reference has not been released
after its slot was handed out anew. -/
theorem given_back_once_iff {pool start : Pool TType} (value : TType)
    (acquires : (Pool.acquire value).run pool = .ok slot start) (run : Run slot start deeds handles)
    (settled : AllSettled deeds handles) :
    GivenBackOnce slot start deeds handles ↔
      (start.objects.map PoolObject.idx)[slot]? = some slot ∧ .copied true ∉ deeds ∧ staleFrom slot .held deeds = 0 := by
  obtain ⟨object, found, pointer⟩ : ∃ object : PoolObject TType, start.objects[slot]? = some object ∧
      object.pool_ptr = true := by
    obtain ⟨_, taken, _, present, rfl⟩ := Pool.acquire_returns acquires
    exact ⟨_, List.getElem?_set_self (List.getElem?_eq_some_iff.mp present).1, rfl⟩
  obtain ⟨given, stack, books⟩ := (run.balance found pointer).account
  rw [owing_eq_zero settled.2, if_neg (phaseAfter_ne_held settled.1)] at books
  rw [GivenBackOnce, stack, List.getElem?_map, found, Option.map_some, Option.some.injEq, ← List.count_eq_zero]
  by_cases own : object.idx = slot
  · rw [if_pos own]
    omega
  · rw [if_neg own]
    omega

/-- A pool of one slot after its only acquisition, with this on the stack. -/
def onlySlot (available : List Nat) (pool_ptr : Bool) : Pool Nat :=
  ⟨available, [⟨pool_ptr, 0, some 7⟩], 1, [.constructed false, .destroyed true, .constructed false]⟩

/-- A copy of the reference gives the slot back when it is destroyed, and the
reference gives it back again. The next two acquires get the same slot. -/
theorem copied_handle_gives_back_again : ∃ made deeds handles,
    (Pool.new 1 0).run (Pool.unbuilt : Pool Nat) = .ok () made ∧
      (Pool.acquire 7).run made = .ok 0 (onlySlot [] true) ∧ Run 0 (onlySlot [] true) deeds handles ∧
      AllSettled deeds handles ∧ ¬ GivenBackOnce 0 (onlySlot [] true) deeds handles ∧
      ∃ after, (Pool.acquireAll [1, 2]).run handles.pool = .ok [0, 0] after := by
  have copied : Run 0 (onlySlot [] true) [.copied true] ⟨onlySlot [] true, [some ⟨true, 0, some 7⟩]⟩ :=
    Run.begin.step (@Step.copiedReference _ _ _ ⟨true, 0, some 7⟩ rfl)
  have destroyed : Run 0 (onlySlot [] true) [.copied true, .settled] ⟨onlySlot [0] true, [none]⟩ :=
    copied.step (@Step.destroyedCopy _ _ _ _ 0 ⟨true, 0, some 7⟩ rfl rfl)
  have released : Run 0 (onlySlot [] true) [.copied true, .settled, .released] ⟨onlySlot [0, 0] false, [none]⟩ :=
    destroyed.step (.releasedReference rfl)
  exact ⟨_, _, _, rfl, rfl, released, ⟨by decide, by decide⟩, by unfold GivenBackOnce; decide, _, rfl⟩

/-- A copy made after the release has nothing to give back. -/
theorem given_back_once_released_first : ∃ made deeds handles,
    (Pool.new 1 0).run (Pool.unbuilt : Pool Nat) = .ok () made ∧
      (Pool.acquire 7).run made = .ok 0 (onlySlot [] true) ∧ Run 0 (onlySlot [] true) deeds handles ∧
      AllSettled deeds handles ∧ GivenBackOnce 0 (onlySlot [] true) deeds handles := by
  have released : Run 0 (onlySlot [] true) [.released] ⟨onlySlot [0] false, []⟩ := .step .begin (.releasedReference rfl)
  have copied : Run 0 (onlySlot [] true) [.released, .copied false] ⟨onlySlot [0] false, [some ⟨false, 0, some 7⟩]⟩ :=
    released.step (@Step.copiedReference _ _ _ ⟨false, 0, some 7⟩ rfl)
  have destroyed : Run 0 (onlySlot [] true) [.released, .copied false, .settled] ⟨onlySlot [0] false, [none]⟩ :=
    copied.step (@Step.destroyedCopy _ _ _ _ 0 ⟨false, 0, some 7⟩ rfl rfl)
  have acquires : (Pool.acquire 7).run (⟨[0], [⟨false, 0, some 0⟩], 1, [.constructed false]⟩ : Pool Nat) =
    .ok 0 (onlySlot [] true) := rfl
  refine ⟨_, _, _, rfl, acquires, destroyed, ⟨by decide, by decide⟩, ?_⟩
  exact (given_back_once_iff 7 acquires destroyed ⟨by decide, by decide⟩).mpr ⟨rfl, by decide, rfl⟩

end Handles
end Libftpp
