import Mathlib.Algebra.Order.Floor.Ring
import Mathlib.Tactic.Linarith
import Mathlib.Tactic.Ring
import Mathlib.Data.Rat.Floor

/-! `PerlinNoise2D` (`perlin_noise_2D.cpp`) and the vectors it needs
(`ivector2.hpp`), in exact arithmetic: over any ordered field with a floor. A
sample is an average of four products with the weights of the interpolation, so
its square is at most the average of the squares, which are at most those of the
distances to the corners. -/
namespace Libftpp

/-- `IVector2`. -/
@[ext] structure IVector2 (TType : Type) where
  x : TType
  y : TType
  deriving DecidableEq

namespace IVector2
variable {TType : Type} [Ring TType]

/-- `operator-=`. -/
def sub (vector other : IVector2 TType) : IVector2 TType := ⟨vector.x - other.x, vector.y - other.y⟩

/-- `dot`. -/
def dot (vector other : IVector2 TType) : TType := vector.x * other.x + vector.y * other.y

end IVector2

namespace PerlinNoise2D
variable {K : Type}

section Formulas
variable [Ring K]

/-- `PerlinNoise2D::linearInterpolation`. -/
def linearInterpolation (a b t : K) : K := a + t * (b - a)

/-- `PerlinNoise2D::fade`. -/
def fade (t : K) : K := t * t * t * (t * (t * 6 - 15) + 10)

/-- `PerlinNoise2D::sample` from the choice of the cell on: the interpolation in
the cell whose lower left corner is `(i, j)`, at these local coordinates. -/
def interpolation (gradient : Int → Int → IVector2 K) (i j : Int) (u v : K) : K :=
  let g00 := gradient i j
  let g10 := gradient (i + 1) j
  let g01 := gradient i (j + 1)
  let g11 := gradient (i + 1) (j + 1)
  let d00 : IVector2 K := ⟨u, v⟩
  let d10 : IVector2 K := ⟨u - 1, v⟩
  let d01 : IVector2 K := ⟨u, v - 1⟩
  let d11 : IVector2 K := ⟨u - 1, v - 1⟩
  let dot00 := d00.dot g00
  let dot10 := d10.dot g10
  let dot01 := d01.dot g01
  let dot11 := d11.dot g11
  let fu := fade u
  let fv := fade v
  let ix0 := linearInterpolation dot00 dot10 fu
  let ix1 := linearInterpolation dot01 dot11 fu
  linearInterpolation ix0 ix1 fv

/-- `PerlinNoise2D::sample`. -/
def sample [LinearOrder K] [FloorRing K] (gradient : Int → Int → IVector2 K) (x y : K) : K :=
  let cell : IVector2 K := ⟨⌊x⌋, ⌊y⌋⟩
  let localCoord := (IVector2.mk x y).sub cell
  interpolation gradient ⌊x⌋ ⌊y⌋ localCoord.x localCoord.y

theorem sample_eq [LinearOrder K] [FloorRing K] (gradient : Int → Int → IVector2 K) (x y : K) :
    sample gradient x y = interpolation gradient ⌊x⌋ ⌊y⌋ (x - ⌊x⌋) (y - ⌊y⌋) := rfl

end Formulas

/-! ### The ends of the interpolation -/

section Ends
variable [CommRing K]

@[simp] theorem linearInterpolation_zero (a b : K) : linearInterpolation a b 0 = a := by
  simp [linearInterpolation]

@[simp] theorem linearInterpolation_one (a b : K) : linearInterpolation a b 1 = b := by
  simp [linearInterpolation]

@[simp] theorem fade_zero : fade (0 : K) = 0 := by
  simp [fade]

@[simp] theorem fade_one : fade (1 : K) = 1 := by
  norm_num [fade]

theorem fade_reflect (t : K) : fade (1 - t) = 1 - fade t := by
  unfold fade
  ring

/-- On the edge between two cells side by side, the corners of the edge decide alone. -/
theorem interpolation_right_edge (gradient : Int → Int → IVector2 K) (i j : Int) (v : K) :
    interpolation gradient i j 1 v = interpolation gradient (i + 1) j 0 v := by
  simp [interpolation]

/-- The same for two cells one above the other. -/
theorem interpolation_upper_edge (gradient : Int → Int → IVector2 K) (i j : Int) (u : K) :
    interpolation gradient i j u 1 = interpolation gradient i (j + 1) u 0 := by
  simp [interpolation]

theorem interpolation_corner (gradient : Int → Int → IVector2 K) (i j : Int) : interpolation gradient i j 0 0 = 0 := by
  simp [interpolation, IVector2.dot]

end Ends

section Field
variable [Field K] [LinearOrder K] [IsStrictOrderedRing K]

/-! ### Averages -/

/-- Between larger values lies a larger value. -/
theorem linearInterpolation_mono {a a' b b' t : K} (lower : 0 ≤ t) (upper : t ≤ 1) (first : a ≤ a') (second : b ≤ b') :
    linearInterpolation a b t ≤ linearInterpolation a' b' t := by
  have left := mul_le_mul_of_nonneg_left first (sub_nonneg.mpr upper)
  have right := mul_le_mul_of_nonneg_left second lower
  unfold linearInterpolation
  linarith

/-- The square of an average is at most the average of the squares. -/
theorem linearInterpolation_sq_le {t : K} (lower : 0 ≤ t) (upper : t ≤ 1) (a b : K) :
    linearInterpolation a b t ^ 2 ≤ linearInterpolation (a ^ 2) (b ^ 2) t := by
  have spread : linearInterpolation (a ^ 2) (b ^ 2) t - linearInterpolation a b t ^ 2 =
      t * (1 - t) * (b - a) ^ 2 := by
    unfold linearInterpolation
    ring
  have nonneg : 0 ≤ t * (1 - t) * (b - a) ^ 2 :=
    mul_nonneg (mul_nonneg lower (sub_nonneg.mpr upper)) (sq_nonneg _)
  linarith

theorem fade_nonneg {t : K} (lower : 0 ≤ t) : 0 ≤ fade t := by
  have factor : t * (t * 6 - 15) + 10 = 6 * (t - 5 / 4) ^ 2 + 5 / 8 := by ring
  have positive : 0 ≤ t * (t * 6 - 15) + 10 := by
    rw [factor]
    linarith [sq_nonneg (t - 5 / 4)]
  exact mul_nonneg (mul_nonneg (mul_nonneg lower lower) lower) positive

theorem fade_le_one {t : K} (upper : t ≤ 1) : fade t ≤ 1 := by
  have reflected := fade_nonneg (sub_nonneg.mpr upper)
  rw [fade_reflect] at reflected
  linarith

/-- The average of the squared distances to the two ends: the nearer end has the
greater weight. -/
theorem linearInterpolation_distances_le {t : K} (lower : 0 ≤ t) (upper : t ≤ 1) :
    linearInterpolation (t ^ 2) ((t - 1) ^ 2) (fade t) ≤ 1 / 2 := by
  have centred : linearInterpolation (t ^ 2) ((t - 1) ^ 2) (fade t) =
      1 / 2 - t * (1 - t) - 2 * (t - 1 / 2) ^ 2 * (6 * ((t - 1 / 2) ^ 2 - 5 / 12) ^ 2 + 5 / 6) := by
    unfold linearInterpolation fade
    ring
  have inside := mul_nonneg lower (sub_nonneg.mpr upper)
  have weighted : 0 ≤ 2 * (t - 1 / 2) ^ 2 * (6 * ((t - 1 / 2) ^ 2 - 5 / 12) ^ 2 + 5 / 6) := by positivity
  linarith

/-! ### The range of a sample -/

/-- No gradient is longer than 1. -/
def AtMostUnit (gradient : Int → Int → IVector2 K) : Prop := ∀ i j, (gradient i j).x ^ 2 + (gradient i j).y ^ 2 ≤ 1

theorem dot_sq_le (distance : IVector2 K) {vector : IVector2 K} (short : vector.x ^ 2 + vector.y ^ 2 ≤ 1) :
    distance.dot vector ^ 2 ≤ distance.x ^ 2 + distance.y ^ 2 := by
  have lagrange : distance.dot vector ^ 2 + (distance.x * vector.y - distance.y * vector.x) ^ 2 =
      (distance.x ^ 2 + distance.y ^ 2) * (vector.x ^ 2 + vector.y ^ 2) := by
    unfold IVector2.dot
    ring
  have shrinks : (distance.x ^ 2 + distance.y ^ 2) * (vector.x ^ 2 + vector.y ^ 2) ≤ distance.x ^ 2 + distance.y ^ 2 :=
    mul_le_of_le_one_right (by positivity) short
  linarith [sq_nonneg (distance.x * vector.y - distance.y * vector.x)]

/-- Two products on an edge, and their distances. -/
theorem edge_sq_le {gradient : Int → Int → IVector2 K} (short : AtMostUnit gradient) (i j : Int) {u : K} (w : K)
    (lower : 0 ≤ u) (upper : u ≤ 1) :
    linearInterpolation ((IVector2.mk u w).dot (gradient i j)) ((IVector2.mk (u - 1) w).dot (gradient (i + 1) j))
        (fade u) ^ 2 ≤
      linearInterpolation (u ^ 2) ((u - 1) ^ 2) (fade u) + w ^ 2 := by
  have weight := fade_nonneg lower
  have rest := fade_le_one upper
  calc
    _ ≤ linearInterpolation ((IVector2.mk u w).dot (gradient i j) ^ 2)
          ((IVector2.mk (u - 1) w).dot (gradient (i + 1) j) ^ 2) (fade u) :=
      linearInterpolation_sq_le weight rest _ _
    _ ≤ linearInterpolation (u ^ 2 + w ^ 2) ((u - 1) ^ 2 + w ^ 2) (fade u) :=
      linearInterpolation_mono weight rest (dot_sq_le ⟨u, w⟩ (short i j)) (dot_sq_le ⟨u - 1, w⟩ (short (i + 1) j))
    _ = linearInterpolation (u ^ 2) ((u - 1) ^ 2) (fade u) + w ^ 2 := by
      unfold linearInterpolation
      ring

theorem interpolation_sq_le {gradient : Int → Int → IVector2 K} (short : AtMostUnit gradient) (i j : Int) {u v : K}
    (left : 0 ≤ u) (right : u ≤ 1) (below : 0 ≤ v) (above : v ≤ 1) : interpolation gradient i j u v ^ 2 ≤ 1 := by
  have weight := fade_nonneg below
  have rest := fade_le_one above
  have lowerEdge := edge_sq_le short i j v left right
  have upperEdge := edge_sq_le short i (j + 1) (v - 1) left right
  calc
    _ ≤ linearInterpolation _ _ (fade v) := linearInterpolation_sq_le weight rest _ _
    _ ≤ linearInterpolation _ _ (fade v) := linearInterpolation_mono weight rest lowerEdge upperEdge
    _ = linearInterpolation (u ^ 2) ((u - 1) ^ 2) (fade u) + linearInterpolation (v ^ 2) ((v - 1) ^ 2) (fade v) := by
      unfold linearInterpolation
      ring
    _ ≤ 1 := by
      linarith [linearInterpolation_distances_le left right, linearInterpolation_distances_le below above]

theorem interpolation_bounds {gradient : Int → Int → IVector2 K} (short : AtMostUnit gradient) (i j : Int) {u v : K}
    (left : 0 ≤ u) (right : u ≤ 1) (below : 0 ≤ v) (above : v ≤ 1) :
    -1 ≤ interpolation gradient i j u v ∧ interpolation gradient i j u v ≤ 1 :=
  abs_le.mp (sq_le_one_iff_abs_le_one _ |>.mp (interpolation_sq_le short i j left right below above))

variable [FloorRing K]

/-- A point on the edge of a cell is sampled as a point of the cell. -/
theorem sample_in_cell (gradient : Int → Int → IVector2 K) {i j : Int} {x y : K} (left : i ≤ x) (right : x ≤ i + 1)
    (below : j ≤ y) (above : y ≤ j + 1) : sample gradient x y = interpolation gradient i j (x - i) (y - j) := by
  have column : sample gradient x y = interpolation gradient i ⌊y⌋ (x - i) (y - ⌊y⌋) := by
    rw [sample_eq]
    rcases right.eq_or_lt with rfl | inside
    · simp [interpolation_right_edge]
    · rw [Int.floor_eq_iff.mpr ⟨left, inside⟩]
  rw [column]
  rcases above.eq_or_lt with rfl | inside
  · simp [interpolation_upper_edge]
  · rw [Int.floor_eq_iff.mpr ⟨below, inside⟩]

/-- Samples lie in [-1, 1], vanish at the lattice points, and do not depend on
which of two neighbouring cells a point of their common edge is taken to be in. -/
theorem sample_bounded_and_seamless {gradient : Int → Int → IVector2 K} (short : AtMostUnit gradient) :
    (∀ x y, -1 ≤ sample gradient x y ∧ sample gradient x y ≤ 1) ∧
      (∀ i j : Int, sample gradient (i : K) (j : K) = 0) ∧
      (∀ i j (v : K), 0 ≤ v → v ≤ 1 → interpolation gradient i j 1 v = interpolation gradient (i + 1) j 0 v) ∧
      ∀ i j (u : K), 0 ≤ u → u ≤ 1 → interpolation gradient i j u 1 = interpolation gradient i (j + 1) u 0 := by
  refine ⟨fun x y => ?_, fun i j => ?_, fun i j v _ _ => interpolation_right_edge gradient i j v,
    fun i j u _ _ => interpolation_upper_edge gradient i j u⟩
  · have left : 0 ≤ x - ⌊x⌋ := sub_nonneg.mpr (Int.floor_le x)
    have right : x - ⌊x⌋ ≤ 1 := by linarith [Int.lt_floor_add_one x]
    have below : 0 ≤ y - ⌊y⌋ := sub_nonneg.mpr (Int.floor_le y)
    have above : y - ⌊y⌋ ≤ 1 := by linarith [Int.lt_floor_add_one y]
    rw [sample_eq]
    exact interpolation_bounds short ⌊x⌋ ⌊y⌋ left right below above
  · simp [sample_eq, interpolation_corner]

end Field

/-- A gradient of length 1 everywhere. -/
def slanted (_ _ : Int) : IVector2 Rat := ⟨3 / 5, 4 / 5⟩

theorem slanted_atMostUnit : AtMostUnit slanted := fun _ _ => by norm_num [slanted]

theorem sample_bounded_and_seamless_slanted :
    (∀ x y, -1 ≤ sample slanted x y ∧ sample slanted x y ≤ 1) ∧
      (∀ i j : Int, sample slanted (i : Rat) (j : Rat) = 0) ∧
      (∀ i j (v : Rat), 0 ≤ v → v ≤ 1 → interpolation slanted i j 1 v = interpolation slanted (i + 1) j 0 v) ∧
      ∀ i j (u : Rat), 0 ≤ u → u ≤ 1 → interpolation slanted i j u 1 = interpolation slanted i (j + 1) u 0 :=
  sample_bounded_and_seamless slanted_atMostUnit

end PerlinNoise2D
end Libftpp
