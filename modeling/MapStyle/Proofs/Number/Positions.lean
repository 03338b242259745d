import Mathlib.Algebra.Order.Floor.Semifield
import Mathlib.Data.Rat.Floor
import MapStyle.Proofs.Number.Legible
import MapStyle.Proofs.Number.Rounding

/-!
# Numbers as positions

The integer part of a number, and the position that a number is read as: the integer part, moved
into the range of positions, and zero for a value that is no number.
-/

set_option autoImplicit false

namespace MapStyle

namespace Binary

theorem value_nonneg (b : Binary) : 0 ≤ b.value := by
  unfold value
  positivity

theorem toNat_eq (b : Binary) : b.toNat = ⌊b.value⌋₊ := by
  have split := zpow_split (b := (2 : ℚ)) (by norm_num) b.exponent
  have power : (0 : ℚ) < 2 ^ (-b.exponent).toNat := by positivity
  have quotient : b.value = ((b.mantissa * 2 ^ b.exponent.toNat : Nat) : ℚ) /
      ((2 ^ (-b.exponent).toNat : Nat) : ℚ) := by
    push_cast
    rw [value, eq_div_iff (ne_of_gt power), mul_assoc, split]
  rw [quotient, Nat.floor_div_eq_div]
  rfl

theorem toNat_le (b : Binary) (fraction : b.exponent ≤ 0) : b.toNat ≤ b.mantissa := by
  have none : b.exponent.toNat = 0 := Int.toNat_of_nonpos fraction
  unfold toNat
  rw [none]
  exact (Nat.div_le_self _ _).trans (Nat.le_of_eq (Nat.mul_one _))

end Binary

namespace FloatReading

open Float.Model (UnpackedFloat)
open Float.Model.UnpackedFloat (Sign)
open FloatBits FloatValue

def wholePart (q : ℚ) : ℤ := if 0 ≤ q then ⌊q⌋ else ⌈q⌉

theorem wholePart_of_nonneg {q : ℚ} (nonneg : 0 ≤ q) : wholePart q = ⌊q⌋₊ := by
  rw [wholePart, if_pos nonneg]
  exact (Int.natCast_floor_eq_floor nonneg).symm

theorem wholePart_neg (q : ℚ) : wholePart (-q) = -wholePart q := by
  unfold wholePart
  rcases lt_trichotomy q 0 with below | rfl | above
  · rw [if_pos (by linarith), if_neg (by linarith), Int.floor_neg]
  · simp
  · rw [if_neg (by linarith), if_pos (le_of_lt above), Int.ceil_neg]

theorem wholePart_nonpos {q : ℚ} (nonpos : q ≤ 0) : wholePart q ≤ 0 := by
  have opposite := wholePart_of_nonneg (neg_nonneg.mpr nonpos)
  rw [wholePart_neg] at opposite
  omega

theorem wholePart_intCast (n : ℤ) : wholePart n = n := by
  unfold wholePart
  rw [Int.floor_intCast, Int.ceil_intCast, ite_self]

def Reading.trunc : Reading → Reading
  | .exact q => .exact (wholePart q)
  | r => r

/-- The position that a value is read as, at most `n`. -/
def Reading.upTo (n : Nat) : Reading → Nat
  | .nan => 0
  | .infinite .negative => 0
  | .infinite .positive => n
  | .exact q => min (wholePart q).toNat n

variable {x : Float} {q : ℚ}

theorem isNaN_iff (x : Float) : Scalar.isNaN x = true ↔ reading x = .nan := by
  have number := isNumber_iff x
  unfold Scalar.isNaN reading
  rw [Bool.not_eq_true', ← Bool.not_eq_true, number, not_not]
  generalize x.toModel.unpack = u
  cases u <;> simp [read]

theorem lt_iff_reading (x y : Float) :
    x < y ↔ (reading x).Le (reading y) ∧ ¬ (reading y).Le (reading x) := by
  rw [← le_iff_reading, ← le_iff_reading]
  exact Scalar.Ordered.lt_iff x y

/-! ## Integer parts -/

theorem sign_eq (x : Float) : sign x.toBits = if signBit x then .negative else .positive := by
  have small := signField_lt x.toBits
  have bit := signBit_iff x
  unfold sign
  by_cases negative : signBit x = true
  · rw [if_pos negative, if_neg (by have := bit.mp negative; omega)]
  · rw [if_neg negative, if_pos (by have := bit.not.mp negative; omega)]

/-- A finite value is the magnitude of its pattern with its sign. -/
theorem eq_value_of_exact (exact : reading x = .exact q) : exponentField x.toBits ≠ 2047 ∧
    q = if signBit x then -(Binary.ofBits x.toBits).value else (Binary.ofBits x.toBits).value := by
  have stands := stands_unpack x
  unfold reading at exact
  generalize x.toModel.unpack = u at stands exact
  cases stands with
  | infinity => cases exact
  | notANumber => cases exact
  | zero below zero =>
    cases exact
    refine ⟨below, ?_⟩
    rw [Binary.value, zero]
    simp
  | finite positive below =>
    cases exact
    refine ⟨below, ?_⟩
    rw [sign_eq]
    split
    · exact scaled_negative _ _
    · exact scaled_positive _ _

theorem abs_eq_value (exact : reading x = .exact q) : |q| = (Binary.ofBits x.toBits).value := by
  have nonneg := (Binary.ofBits x.toBits).value_nonneg
  rw [(eq_value_of_exact exact).2]
  split
  · rw [abs_neg, abs_of_nonneg nonneg]
  · exact abs_of_nonneg nonneg

theorem toInt_eq (exact : reading x = .exact q) : Scalar.toInt x = wholePart q := by
  have finite : (x.isNaN || x.isInf) = false := by
    have shape := standsFor_of_reading exact
    change (x.toModel.unpack.isNaN || x.toModel.unpack.isInf) = false
    generalize x.toModel.unpack = u at shape
    cases shape with
    | zero => rfl
    | finite => rfl
  have negative : x < 0.0 ↔ q < 0 := by
    have zero : reading 0.0 = .exact 0 := rfl
    rw [lt_iff_reading, exact, zero]
    simp only [Reading.exact_le_exact, not_le]
    exact ⟨And.right, fun below => ⟨le_of_lt below, below⟩⟩
  have magnitude := abs_eq_value exact
  change floatToInt x = _
  unfold floatToInt
  rw [finite, if_neg Bool.false_ne_true]
  dsimp only
  rw [Binary.toNat_eq, ← magnitude]
  by_cases below : q < 0
  · rw [if_pos (negative.mpr below), abs_of_neg below,
      ← wholePart_of_nonneg (neg_nonneg.mpr (le_of_lt below)), wholePart_neg, neg_neg]
  · have nonneg : 0 ≤ q := not_lt.mp below
    rw [if_neg (negative.not.mpr below), abs_of_nonneg nonneg, wholePart_of_nonneg nonneg]

theorem exists_exact (below : exponentField x.toBits ≠ 2047) : ∃ q, reading x = .exact q := by
  have stands := stands_unpack x
  unfold reading
  generalize x.toModel.unpack = u at stands
  cases stands with
  | infinity top => exact absurd top below
  | notANumber top => exact absurd top below
  | zero => exact ⟨_, rfl⟩
  | finite => exact ⟨_, rfl⟩

/-- A value of which the last binary digit is not below one has no fraction. -/
theorem wholePart_eq_self (exact : reading x = .exact q)
    (whole : 0 ≤ (Binary.ofBits x.toBits).exponent) : (wholePart q : ℚ) = q := by
  obtain ⟨e, power⟩ := Int.eq_ofNat_of_zero_le whole
  have value : (Binary.ofBits x.toBits).value =
      (((Binary.ofBits x.toBits).mantissa * 2 ^ e : Nat) : Int) := by
    rw [Binary.value, power]
    push_cast
    rw [zpow_natCast]
  rw [(eq_value_of_exact exact).2, value]
  split
  · rw [← Int.cast_neg, wholePart_intCast]
  · rw [wholePart_intCast]

theorem reading_trunc (x : Float) : reading (Scalar.trunc x) = (reading x).trunc := by
  change reading (floatTrunc x) = _
  unfold floatTrunc
  dsimp only
  by_cases whole : 0 ≤ (Binary.ofBits x.toBits).exponent
  · rw [if_pos whole]
    cases exact : reading x with
    | nan => rfl
    | infinite s => rfl
    | exact q => rw [Reading.trunc, wholePart_eq_self exact whole]
  · have below : exponentField x.toBits ≠ 2047 := by
      intro top
      rw [ofBits_eq, if_neg (by omega), top] at whole
      exact whole (by dsimp only; omega)
    obtain ⟨q, exact⟩ := exists_exact below
    have few : (Binary.ofBits x.toBits).toNat < 2 ^ 53 :=
      Nat.lt_of_le_of_lt (Binary.toNat_le _ (by omega)) (canonical_ofBits x.toBits).bounded
    have magnitude := reading_toFloat few
    have part :
        ((Binary.ofBits x.toBits).toNat : ℤ) = wholePart (Binary.ofBits x.toBits).value := by
      rw [Binary.toNat_eq, wholePart_of_nonneg (Binary.value_nonneg _)]
    rw [if_neg whole, exact, Reading.trunc, (eq_value_of_exact exact).2]
    split
    · rw [wholePart_neg, ← part, reading_neg magnitude]
      simp
    · rw [← part, magnitude]
      simp

/-! ## Positions -/

theorem reading_zero : reading (Scalar.ofInt 0) = .exact 0 := rfl

theorem reading_greatest : reading (Scalar.ofInt Word.greatest) = .exact (2 ^ 64) := by
  have value : (Scalar.ofInt Word.greatest : Float).toModel.unpack =
      .finite .positive (2 ^ 52) 12 (by decide) := rfl
  rw [reading, value, read, scaled_positive]
  norm_num

/-- The position that a number is read as is its integer part, moved into the range of words. -/
theorem toIndex_eq (x : Float) : Scalar.toIndex x = (reading x).upTo (2 ^ 64 - 1) := by
  have number := isNaN_iff x
  have low := le_iff_reading x (Scalar.ofInt 0)
  have high := le_iff_reading (Scalar.ofInt Word.greatest) x
  rw [reading_zero] at low
  rw [reading_greatest] at high
  unfold Scalar.toIndex Scalar.toIntWithin
  cases exact : reading x with
  | nan => rw [if_pos (number.mpr exact), Reading.upTo]; rfl
  | infinite s =>
    rw [exact] at number low high
    rw [if_neg (by simp [number])]
    cases s with
    | negative => rw [if_pos (by simp [low]), Reading.upTo]; rfl
    | positive =>
      rw [if_neg (by simp [low]), if_pos (by simp [high]), Reading.upTo]
      rfl
  | exact q =>
    rw [exact, Reading.exact_le_exact] at low high
    rw [exact] at number
    rw [if_neg (by simp [number]), Reading.upTo]
    by_cases nonpos : q ≤ 0
    · have := wholePart_nonpos nonpos
      rw [if_pos (low.mpr nonpos)]
      omega
    have positive : wholePart q = ⌊q⌋ := if_pos (le_of_lt (not_le.mp nonpos))
    rw [if_neg (low.not.mpr nonpos)]
    by_cases above : 2 ^ 64 ≤ q
    · have : (2 ^ 64 : ℤ) ≤ wholePart q := by
        rw [positive]
        exact Int.le_floor.mpr (by exact_mod_cast above)
      rw [if_pos (high.mpr above), Word.greatest]
      omega
    · have : wholePart q < (2 ^ 64 : ℤ) := by
        rw [positive]
        exact Int.floor_lt.mpr (by exact_mod_cast not_le.mp above)
      rw [if_neg (high.not.mpr above), toInt_eq exact]
      omega

theorem Reading.upTo_of_le {r : Reading} (le : r.Le (.exact 0)) (n : Nat) : r.upTo n = 0 := by
  cases r with
  | nan => rfl
  | infinite s =>
    cases s with
    | negative => rfl
    | positive => exact absurd le (by simp)
  | exact q =>
    have := wholePart_nonpos (Reading.exact_le_exact.mp le)
    rw [Reading.upTo]
    omega

theorem Reading.min_upTo {m n : Nat} (le : m ≤ n) (r : Reading) : min (r.upTo n) m = r.upTo m := by
  cases r with
  | nan => exact Nat.zero_min m
  | infinite s =>
    cases s with
    | negative => exact Nat.zero_min m
    | positive => exact Nat.min_eq_right le
  | exact q =>
    change min (min (wholePart q).toNat n) m = min (wholePart q).toNat m
    omega

/-- Moving a value up to zero leaves its position. -/
theorem toIndex_max (x : Float) :
    Scalar.toIndex (Scalar.max x (Scalar.ofInt 0)) = (reading x).upTo (2 ^ 64 - 1) := by
  have index : Scalar.toIndex (Scalar.ofInt 0 : Float) = 0 := by
    rw [toIndex_eq, reading_zero]
    exact Reading.upTo_of_le (Reading.exact_le_exact.mpr (le_refl 0)) _
  have zeroNumber : Scalar.isNaN (Scalar.ofInt 0 : Float) = false := by
    rw [Bool.eq_false_iff, ne_eq, isNaN_iff, reading_zero]
    nofun
  have below := lt_iff_reading x (Scalar.ofInt 0)
  rw [reading_zero] at below
  unfold Scalar.max
  rw [zeroNumber, if_neg Bool.false_ne_true]
  split
  · rename_i nan
    rw [index, (isNaN_iff x).mp nan]
    rfl
  split
  · rename_i negative
    rw [index, Reading.upTo_of_le (below.mp negative).1]
  · exact toIndex_eq x

end FloatReading

end MapStyle
