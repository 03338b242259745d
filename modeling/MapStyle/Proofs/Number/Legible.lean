import MapStyle.Proofs.Number.Bits
import MapStyle.Value.Json

/-!
# Numbers that can be told by their numerals

What is used of the passage from numbers to numerals: finite numbers have finite numerals, and the
numerals of different numbers name different numbers.  The floating-point numbers that programs run
with are of this kind.
-/

set_option autoImplicit false

namespace MapStyle

open scoped Scalar

/-- Numbers that their numerals tell apart.  Only the zeros are equal and not one. -/
class Scalar.Legible (ν : Type) [Scalar ν] : Prop extends Scalar.Ordered ν where
  eq_of_beq : ∀ x y : ν, (x == y) = true → ¬ (x == 0) = true → x = y
  toInt_of_zero : ∀ x : ν, (x == 0) = true → Scalar.toInt x = 0
  zero_lt_limit : (0 : ν) < Scalar.ofInt exactWholeLimit
  numeral_zero : ∀ tie : Tie, Scalar.toNumeral tie (0 : ν) = .finite false .zero
  numeral_of_isFinite : ∀ (tie : Tie) (x : ν), Scalar.isFinite x = true →
    ∃ negative d, Scalar.toNumeral tie x = .finite negative d
  beq_of_value : ∀ (tie : Tie) (x y : ν) (r : ℚ), (Scalar.toNumeral tie x).value? = some r →
    (Scalar.toNumeral tie y).value? = some r → (x == y) = true

namespace FloatBits

open Float.Model (UnpackedFloat)
open FloatOrder

theorem signBit_iff (x : Float) : signBit x = true ↔ signField x.toBits = 1 := by
  unfold signBit
  rw [decide_eq_true_iff, ← UInt64.toNat_inj, UInt64.toNat_shiftRight]
  change x.toBits.toNat >>> 63 = 1 ↔ _
  rw [Nat.shiftRight_eq_div_pow, signField]

theorem signBit_eq_iff {x y : Float} :
    signBit x = signBit y ↔ signField x.toBits = signField y.toBits := by
  have := signField_lt x.toBits
  have := signField_lt y.toBits
  rw [Bool.eq_iff_iff, signBit_iff, signBit_iff]
  omega

/-- A finite number has the numeral of its sign and its shortest decimal; the others have no finite
numeral. -/
theorem ofFloat_cases (tie : Tie) (x : Float) :
    x.toModel.unpack.isFinite = false ∧ (Numeral.ofFloat tie x).value? = none ∨
      exponentField x.toBits ≠ 2047 ∧ Numeral.ofFloat tie x =
        .finite (signBit x) ((Binary.ofBits x.toBits).shortest tie) := by
  have nan : x.isNaN = x.toModel.unpack.isNaN := rfl
  have inf : x.isInf = x.toModel.unpack.isInf := rfl
  have stands := stands_unpack x
  unfold Numeral.ofFloat
  rw [nan, inf]
  generalize x.toModel.unpack = u at stands
  cases stands with
  | infinity => exact Or.inl ⟨rfl, rfl⟩
  | notANumber => exact Or.inl ⟨rfl, rfl⟩
  | zero below => exact Or.inr ⟨below, rfl⟩
  | finite _ below => exact Or.inr ⟨below, rfl⟩

/-- The difference of a number that is not finite and itself is no number. -/
theorem not_isFinite {x : Float} (notFinite : x.toModel.unpack.isFinite = false) :
    Scalar.isFinite x = false := by
  have difference : x - x =
      .ofModel (.pack (.sub .binary64 x.toModel.unpack x.toModel.unpack)) := rfl
  have noNumber : UnpackedFloat.sub .binary64 x.toModel.unpack x.toModel.unpack = .notANumber := by
    generalize x.toModel.unpack = u at notFinite
    cases u with
    | infinity s => cases s <;> rfl
    | notANumber => rfl
    | zero => cases notFinite
    | finite => cases notFinite
  rw [Scalar.isFinite, difference, noNumber]
  decide +kernel

theorem rank_eq_zero_iff {x : Float} (finite : exponentField x.toBits ≠ 2047) :
    rank x.toModel.unpack = some (0, 0, 0) ↔ (Binary.ofBits x.toBits).mantissa = 0 := by
  have stands := stands_unpack x
  generalize x.toModel.unpack = u at stands
  cases stands with
  | infinity top => exact absurd top finite
  | notANumber top => exact absurd top finite
  | zero _ zero => exact iff_of_true rfl zero
  | finite positive _ =>
    rw [rank_finite, Option.some.injEq, Prod.mk.injEq]
    apply iff_of_false _ (Nat.ne_of_gt positive)
    generalize sign x.toBits = s
    rintro ⟨one, _⟩
    cases s <;> cases one

theorem beq_self {x : Float} (finite : exponentField x.toBits ≠ 2047) : (x == x) = true := by
  rw [beq_iff_rank]
  have stands := stands_unpack x
  generalize x.toModel.unpack = u at stands
  cases stands with
  | infinity top => exact absurd top finite
  | notANumber top => exact absurd top finite
  | zero => exact ⟨_, rfl, rfl⟩
  | finite =>
    generalize sign x.toBits = s
    cases s <;> exact ⟨_, rfl, rfl⟩

theorem beq_of_shortest {x y : Float} (finiteX : exponentField x.toBits ≠ 2047)
    (finiteY : exponentField y.toBits ≠ 2047) {tie : Tie}
    (same : (Numeral.finite (signBit x) ((Binary.ofBits x.toBits).shortest tie)).value? =
      (Numeral.finite (signBit y) ((Binary.ofBits y.toBits).shortest tie)).value?) :
    (x == y) = true := by
  have canonicalX := canonical_ofBits x.toBits
  have canonicalY := canonical_ofBits y.toBits
  have aboveX := (Binary.ofBits x.toBits).shortest_value_nonneg tie
  have aboveY := (Binary.ofBits y.toBits).shortest_value_nonneg tie
  simp only [Numeral.value?, Option.some.injEq] at same
  have magnitudes : ((Binary.ofBits x.toBits).shortest tie).value =
      ((Binary.ofBits y.toBits).shortest tie).value := by
    split at same <;> split at same <;> linarith
  rcases Binary.eq_of_shortest canonicalX canonicalY magnitudes with ⟨zeroX, zeroY⟩ | equal
  · exact (beq_iff_rank x y).mpr
      ⟨_, (rank_eq_zero_iff finiteX).mpr zeroX, (rank_eq_zero_iff finiteY).mpr zeroY⟩
  · by_cases zero : (Binary.ofBits x.toBits).mantissa = 0
    · exact (beq_iff_rank x y).mpr
        ⟨_, (rank_eq_zero_iff finiteX).mpr zero, (rank_eq_zero_iff finiteY).mpr (equal ▸ zero)⟩
    · have positive := Binary.shortest_value_pos (Nat.pos_of_ne_zero zero) tie
      have signs : signBit x = signBit y := by
        rw [← magnitudes] at same
        cases signX : signBit x <;> cases signY : signBit y <;> simp only [signX, signY] at same
        · rfl
        · simp only [if_true, Bool.false_eq_true, if_false] at same
          linarith
        · simp only [if_true, Bool.false_eq_true, if_false] at same
          linarith
        · rfl
      have fields := fields_eq_of_ofBits (congrArg Binary.mantissa equal)
        (congrArg Binary.exponent equal)
      obtain rfl := eq_of_toBits (eq_of_fields (signBit_eq_iff.mp signs) fields.1 fields.2)
      exact beq_self finiteX

end FloatBits

open FloatBits FloatOrder in
instance : Scalar.Legible Float where
  eq_of_beq x y := FloatBits.eq_of_beq
  toInt_of_zero x zero := by
    obtain ⟨a, isA, isZero⟩ := (beq_iff_rank _ _).mp zero
    obtain rfl := Option.some.inj (rank_zero.symm.trans isZero)
    have finite : exponentField x.toBits ≠ 2047 := by
      intro top
      have stands := stands_unpack x
      generalize x.toModel.unpack = u at stands isA
      cases stands with
      | infinity =>
        generalize sign x.toBits = s at isA
        cases s <;> cases isA
      | notANumber => cases isA
      | zero below => exact below top
      | finite _ below => exact below top
    have zero := (rank_eq_zero_iff finite).mp isA
    change floatToInt x = 0
    simp [floatToInt, Binary.toNat, zero]
  zero_lt_limit := by
    rw [float_lt]
    decide +kernel
  numeral_zero tie := by
    cases tie <;> decide +kernel
  numeral_of_isFinite tie x finite := by
    rcases ofFloat_cases tie x with ⟨notFinite, _⟩ | ⟨_, numeral⟩
    · rw [not_isFinite notFinite] at finite
      cases finite
    · exact ⟨_, _, numeral⟩
  beq_of_value tie x y r first second := by
    change (Numeral.ofFloat tie x).value? = some r at first
    change (Numeral.ofFloat tie y).value? = some r at second
    rcases ofFloat_cases tie x with ⟨_, none⟩ | ⟨finiteX, numeralX⟩
    · cases none.symm.trans first
    · rcases ofFloat_cases tie y with ⟨_, none⟩ | ⟨finiteY, numeralY⟩
      · cases none.symm.trans second
      · rw [numeralX] at first
        rw [numeralY] at second
        exact beq_of_shortest finiteX finiteY (first.trans second.symm)

end MapStyle
