import Libftpp.DataBuffer

/-! `Random2DCoordinateGenerator` (`random_2D_coordinate_generator.cpp`). A point is
mixed into one number, which the seed masks and the hash spreads. Seed and hash
keep numbers apart, so two points share a value exactly if they mix alike. -/
namespace Libftpp
open Program

/-- `Random2DCoordinateGenerator`. -/
structure Random2DCoordinateGenerator where
  seed : Int64
  deriving DecidableEq

namespace Random2DCoordinateGenerator

/-- The result of an operation on `long long`s. Overflow has no meaning. -/
def longLong (result : Int) : Program Exn Random2DCoordinateGenerator Int64 :=
  if Int64.minValue.toInt ≤ result ∧ result ≤ Int64.maxValue.toInt then pure (Int64.ofInt result)
  else undefinedBehaviour

/-- `operator()`, with `std::hash<long long>`. -/
def call (hash : Int64 → UInt64) (x y : Int64) : Program Exn Random2DCoordinateGenerator Int64 := do
  let first ← longLong (x.toInt * 7)
  let second ← longLong (y.toInt * 13)
  let mixed ← longLong (first.toInt - second.toInt)
  let generator ← get
  pure (hash (generator.seed ^^^ mixed)).toInt64

/-- What is mixed out of a point whose coordinates are `int`s. -/
def mixed (x y : Int32) : Int64 := Int64.ofInt (x.toInt * 7 - y.toInt * 13)

/-- The values of the two points are computed, and they are the same. -/
def Collide (hash : Int64 → UInt64) (generator : Random2DCoordinateGenerator) (x y x' y' : Int32) : Prop :=
  ∃ value, (call hash x.toInt64 y.toInt64).run generator = .ok value generator ∧
    (call hash x'.toInt64 y'.toInt64).run generator = .ok value generator

/-- One point is some steps of (13, 7) from the other. -/
def OnStride (x y x' y' : Int32) : Prop :=
  ∃ count : Int, x.toInt - x'.toInt = count * 13 ∧ y.toInt - y'.toInt = count * 7

theorem longLong_run {result : Int} (lower : -9223372036854775808 ≤ result) (upper : result ≤ 9223372036854775807)
    (generator : Random2DCoordinateGenerator) : (longLong result).run generator = .ok (Int64.ofInt result) generator := by
  have fits : Int64.minValue.toInt ≤ result ∧ result ≤ Int64.maxValue.toInt := ⟨lower, upper⟩
  rw [longLong, if_pos fits]
  rfl

/-- Nothing overflows for `int`s. -/
theorem call_run (hash : Int64 → UInt64) (x y : Int32) (generator : Random2DCoordinateGenerator) :
    (call hash x.toInt64 y.toInt64).run generator = .ok (hash (generator.seed ^^^ mixed x y)).toInt64 generator := by
  have aboveX := x.toInt_lt
  have belowX := x.le_toInt
  have aboveY := y.toInt_lt
  have belowY := y.le_toInt
  have first := @Int64.toInt_ofInt_of_le (x.toInt * 7) (by omega) (by omega)
  have second := @Int64.toInt_ofInt_of_le (y.toInt * 13) (by omega) (by omega)
  simp only [call, EStateM.run_bind, Int32.toInt_toInt64]
  rw [longLong_run (by omega) (by omega)]
  simp only [first]
  rw [longLong_run (by omega) (by omega)]
  simp only [second]
  rw [longLong_run (by omega) (by omega)]
  rfl

theorem mixed_toInt (x y : Int32) : (mixed x y).toInt = x.toInt * 7 - y.toInt * 13 := by
  have aboveX := x.toInt_lt
  have belowX := x.le_toInt
  have aboveY := y.toInt_lt
  have belowY := y.le_toInt
  exact Int64.toInt_ofInt_of_le (by omega) (by omega)

theorem mixed_eq_iff (x y x' y' : Int32) : mixed x y = mixed x' y' ↔ OnStride x y x' y' := by
  rw [← Int64.toInt_inj, mixed_toInt, mixed_toInt]
  constructor
  · -- 7 and 13 have no common factor.
    exact fun same => ⟨(x.toInt - x'.toInt) / 13, by omega, by omega⟩
  · rintro ⟨count, across, up⟩
    omega

theorem collide_iff {hash : Int64 → UInt64} (injective : ∀ first second, hash first = hash second → first = second)
    (generator : Random2DCoordinateGenerator) (x y x' y' : Int32) :
    Collide hash generator x y x' y' ↔ OnStride x y x' y' := by
  rw [← mixed_eq_iff]
  simp only [Collide, call_run, EStateM.Result.ok.injEq, and_true, exists_eq_left']
  constructor
  · intro same
    have hashed := injective _ _ (congrArg Int64.toUInt64 same)
    exact ((Int64.xor_right_inj generator.seed).mp hashed).symm
  · intro same
    rw [same]

theorem onStride_column {x y x' y' : Int32} (stride : OnStride x y x' y')
    (near : x.toInt < x'.toInt + 13 ∧ x'.toInt < x.toInt + 13) : x = x' ∧ y = y' := by
  obtain ⟨count, across, up⟩ := stride
  have none : count = 0 := by omega
  subst none
  exact ⟨Int32.toInt_inj.mp (by omega), Int32.toInt_inj.mp (by omega)⟩

theorem onStride_row {x y x' y' : Int32} (stride : OnStride x y x' y')
    (near : y.toInt < y'.toInt + 7 ∧ y'.toInt < y.toInt + 7) : x = x' ∧ y = y' := by
  obtain ⟨count, across, up⟩ := stride
  have none : count = 0 := by omega
  subst none
  exact ⟨Int32.toInt_inj.mp (by omega), Int32.toInt_inj.mp (by omega)⟩

/-- Points collide exactly along the stride: for every seed the same, and never
within thirteen columns or seven rows. -/
theorem collision_law {hash : Int64 → UInt64} (injective : ∀ first second, hash first = hash second → first = second)
    (generator : Random2DCoordinateGenerator) :
    (∀ x y : Int32, ∃ value, (call hash x.toInt64 y.toInt64).run generator = .ok value generator) ∧
      (∀ x y x' y', Collide hash generator x y x' y' ↔ OnStride x y x' y') ∧
      (∀ other x y x' y', Collide hash generator x y x' y' ↔ Collide hash other x y x' y') ∧
      (∀ (left : Int) x y x' y', left ≤ x.toInt → x.toInt < left + 13 → left ≤ x'.toInt → x'.toInt < left + 13 →
        Collide hash generator x y x' y' → x = x' ∧ y = y') ∧
      ∀ (bottom : Int) x y x' y', bottom ≤ y.toInt → y.toInt < bottom + 7 → bottom ≤ y'.toInt →
        y'.toInt < bottom + 7 → Collide hash generator x y x' y' → x = x' ∧ y = y' := by
  refine ⟨fun x y => ⟨_, call_run hash x y generator⟩, collide_iff injective generator, fun other x y x' y' => ?_,
    fun left x y x' y' lower upper lower' upper' collide => ?_,
    fun bottom x y x' y' lower upper lower' upper' collide => ?_⟩
  · rw [collide_iff injective, collide_iff injective]
  · exact onStride_column ((collide_iff injective generator x y x' y').mp collide) ⟨by omega, by omega⟩
  · exact onStride_row ((collide_iff injective generator x y x' y').mp collide) ⟨by omega, by omega⟩

/-- With the identity for a hash, as the GNU library has it. -/
theorem collision_law_identity :
    (∀ x y : Int32, ∃ value, (call Int64.toUInt64 x.toInt64 y.toInt64).run ⟨42⟩ = .ok value ⟨42⟩) ∧
      (∀ x y x' y', Collide Int64.toUInt64 ⟨42⟩ x y x' y' ↔ OnStride x y x' y') ∧
      (∀ other x y x' y', Collide Int64.toUInt64 ⟨42⟩ x y x' y' ↔ Collide Int64.toUInt64 other x y x' y') ∧
      (∀ (left : Int) x y x' y', left ≤ x.toInt → x.toInt < left + 13 → left ≤ x'.toInt → x'.toInt < left + 13 →
        Collide Int64.toUInt64 ⟨42⟩ x y x' y' → x = x' ∧ y = y') ∧
      ∀ (bottom : Int) x y x' y', bottom ≤ y.toInt → y.toInt < bottom + 7 → bottom ≤ y'.toInt →
        y'.toInt < bottom + 7 → Collide Int64.toUInt64 ⟨42⟩ x y x' y' → x = x' ∧ y = y' :=
  collision_law (fun _ _ same => congrArg UInt64.toInt64 same) ⟨42⟩

end Random2DCoordinateGenerator
end Libftpp
