import Libftpp.PerlinNoise2D
import Libftpp.Random2DCoordinateGenerator

/-! The noise with the gradients of its generator (`perlin_noise_2D.cpp`), in exact
arithmetic. The generator cannot tell points on its stride apart, so whatever the
seed, the noise repeats itself thirteen cells to the right and seven up. -/
namespace Libftpp
open Program

namespace PerlinNoise2D
variable {K : Type}

/-- A coordinate of a corner that an `int` can hold. -/
def IsInt (coordinate : Int) : Prop := Int32.minValue.toInt ≤ coordinate ∧ coordinate ≤ Int32.maxValue.toInt

instance (coordinate : Int) : Decidable (IsInt coordinate) := inferInstanceAs (Decidable (_ ∧ _))

/-- `PerlinNoise2D::gradient`, with the unit vectors of the angles in degrees. The
conversion of a coordinate that no `int` can hold has no meaning. -/
def gradient (hash : Int64 → UInt64) (unit : Int → IVector2 K) (i j : Int) :
    Program Exn Random2DCoordinateGenerator (IVector2 K) := do
  if IsInt i ∧ IsInt j then
    let randVal ← Random2DCoordinateGenerator.call hash (Int32.ofInt i).toInt64 (Int32.ofInt j).toInt64
    pure (unit (randVal.toInt.tmod 360))
  else undefinedBehaviour

/-- The gradients at the corners of a cell, in the order of their computation. -/
def corners (hash : Int64 → UInt64) (unit : Int → IVector2 K) (i j : Int) :
    Program Exn Random2DCoordinateGenerator (IVector2 K × IVector2 K × IVector2 K × IVector2 K) := do
  let g00 ← gradient hash unit i j
  let g10 ← gradient hash unit (i + 1) j
  let g01 ← gradient hash unit i (j + 1)
  let g11 ← gradient hash unit (i + 1) (j + 1)
  pure (g00, g10, g01, g11)

/-- `PerlinNoise2D::sample`, from the gradients on. -/
def smooth [Ring K] (g : IVector2 K × IVector2 K × IVector2 K × IVector2 K) (u v : K) : K :=
  let ix0 := linearInterpolation ((IVector2.mk u v).dot g.1) ((IVector2.mk (u - 1) v).dot g.2.1) (fade u)
  let ix1 := linearInterpolation ((IVector2.mk u (v - 1)).dot g.2.2.1) ((IVector2.mk (u - 1) (v - 1)).dot g.2.2.2) (fade u)
  linearInterpolation ix0 ix1 (fade v)

section Sample
variable [Ring K] [LinearOrder K] [FloorRing K]

/-- `PerlinNoise2D::sample`, with its generator. -/
def sampled (hash : Int64 → UInt64) (unit : Int → IVector2 K) (x y : K) :
    Program Exn Random2DCoordinateGenerator K := do
  let g ← corners hash unit ⌊x⌋ ⌊y⌋
  pure (smooth g (x - ⌊x⌋) (y - ⌊y⌋))

end Sample

/-- What the generator has for a corner. -/
def direction (hash : Int64 → UInt64) (unit : Int → IVector2 K) (generator : Random2DCoordinateGenerator) (i j : Int) :
    IVector2 K :=
  unit ((hash (generator.seed ^^^ Random2DCoordinateGenerator.mixed (Int32.ofInt i) (Int32.ofInt j))).toInt64.toInt.tmod 360)

theorem gradient_run {hash : Int64 → UInt64} {unit : Int → IVector2 K} {before : Random2DCoordinateGenerator}
    (ran : (gradient hash unit i j).run before = .ok vector after) :
    IsInt i ∧ IsInt j ∧ vector = direction hash unit before i j ∧ after = before := by
  rw [gradient, run_ite] at ran
  split at ran
  · rw [EStateM.run_bind, Random2DCoordinateGenerator.call_run] at ran
    cases ran
    exact ⟨‹IsInt i ∧ IsInt j›.1, ‹IsInt i ∧ IsInt j›.2, rfl, rfl⟩
  · cases ran

/-- A sample that has a meaning is that of the noise with these gradients. -/
theorem sampled_run [Ring K] [LinearOrder K] [FloorRing K] {hash : Int64 → UInt64} {unit : Int → IVector2 K} {x y : K}
    {before : Random2DCoordinateGenerator} (ran : (sampled hash unit x y).run before = .ok value after) :
    (IsInt ⌊x⌋ ∧ IsInt (⌊x⌋ + 1) ∧ IsInt ⌊y⌋ ∧ IsInt (⌊y⌋ + 1)) ∧ value = sample (direction hash unit before) x y := by
  obtain ⟨g, _, cornered, ran⟩ := bind_returns.mp ran
  cases ran
  obtain ⟨g00, _, ran00, cornered⟩ := bind_returns.mp cornered
  obtain ⟨left, below, rfl, rfl⟩ := gradient_run ran00
  obtain ⟨g10, _, ran10, cornered⟩ := bind_returns.mp cornered
  obtain ⟨right, _, rfl, rfl⟩ := gradient_run ran10
  obtain ⟨g01, _, ran01, cornered⟩ := bind_returns.mp cornered
  obtain ⟨_, above, rfl, rfl⟩ := gradient_run ran01
  obtain ⟨g11, _, ran11, cornered⟩ := bind_returns.mp cornered
  obtain ⟨_, _, rfl, rfl⟩ := gradient_run ran11
  cases cornered
  exact ⟨⟨left, right, below, above⟩, rfl⟩

/-- Along the stride of the generator, the directions repeat themselves. -/
theorem direction_repeats (hash : Int64 → UInt64) (unit : Int → IVector2 K) (generator : Random2DCoordinateGenerator)
    (steps : Int) (across : IsInt i ∧ IsInt (i + steps * 13)) (up : IsInt j ∧ IsInt (j + steps * 7)) :
    direction hash unit generator (i + steps * 13) (j + steps * 7) = direction hash unit generator i j := by
  have exact_ : ∀ coordinate, IsInt coordinate → (Int32.ofInt coordinate).toInt = coordinate :=
    fun coordinate inside => Int32.toInt_ofInt_of_le inside.1 (Int.lt_add_one_of_le inside.2)
  have same : Random2DCoordinateGenerator.mixed (Int32.ofInt (i + steps * 13)) (Int32.ofInt (j + steps * 7)) =
      Random2DCoordinateGenerator.mixed (Int32.ofInt i) (Int32.ofInt j) := by
    rw [Random2DCoordinateGenerator.mixed_eq_iff]
    refine ⟨steps, ?_, ?_⟩
    · rw [exact_ _ across.1, exact_ _ across.2]
      omega
    · rw [exact_ _ up.1, exact_ _ up.2]
      omega
  rw [direction, same]
  rfl

/-- Whatever the seed, the hash and the vectors: where both samples have a meaning,
the noise thirteen cells to the right and seven up is the same. -/
theorem noise_repeats [Field K] [LinearOrder K] [IsStrictOrderedRing K] [FloorRing K] {hash : Int64 → UInt64}
    {unit : Int → IVector2 K} {generator : Random2DCoordinateGenerator} {x y : K} (steps : Int)
    (here : (sampled hash unit x y).run generator = .ok value after)
    (there : (sampled hash unit (x + (steps * 13 : Int)) (y + (steps * 7 : Int))).run generator = .ok value' after') :
    value' = value := by
  obtain ⟨⟨left, right, below, above⟩, rfl⟩ := sampled_run here
  obtain ⟨⟨left', right', below', above'⟩, rfl⟩ := sampled_run there
  rw [Int.floor_add_intCast] at left' right' below' above'
  rw [add_right_comm] at right' above'
  have across : x + (steps * 13 : Int) - ((⌊x⌋ + steps * 13 : Int) : K) = x - ⌊x⌋ := by
    rw [Int.cast_add]
    ring
  have up : y + (steps * 7 : Int) - ((⌊y⌋ + steps * 7 : Int) : K) = y - ⌊y⌋ := by
    rw [Int.cast_add]
    ring
  rw [sample_eq, sample_eq, Int.floor_add_intCast, Int.floor_add_intCast, across, up]
  unfold interpolation
  rw [add_right_comm ⌊x⌋, add_right_comm ⌊y⌋,
    direction_repeats hash unit generator steps ⟨left, left'⟩ ⟨below, below'⟩,
    direction_repeats hash unit generator steps ⟨right, right'⟩ ⟨below, below'⟩,
    direction_repeats hash unit generator steps ⟨left, left'⟩ ⟨above, above'⟩,
    direction_repeats hash unit generator steps ⟨right, right'⟩ ⟨above, above'⟩]

/-- Two unit vectors, one for each half of the angles. -/
def halves (angle : Int) : IVector2 Rat := if angle < 180 then ⟨3 / 5, 4 / 5⟩ else ⟨-4 / 5, 3 / 5⟩

/-- With the identity for a hash, as the GNU library has it. -/
theorem noise_repeats_identity : ∃ value value' : Rat, value = 15 / 128 ∧ value' = value := by
  have here : (sampled Int64.toUInt64 halves (1 / 2) (1 / 4)).run ⟨42⟩ = .ok (15 / 128 : Rat) _ :=
    run_outcome (by decide +kernel) (by decide +kernel)
  have there : (sampled Int64.toUInt64 halves (1 / 2 + (1 * 13 : Int)) (1 / 4 + (1 * 7 : Int))).run ⟨42⟩ =
      .ok (15 / 128 : Rat) _ := run_outcome (by decide +kernel) (by decide +kernel)
  exact ⟨_, _, rfl, noise_repeats 1 here there⟩

end PerlinNoise2D
end Libftpp
