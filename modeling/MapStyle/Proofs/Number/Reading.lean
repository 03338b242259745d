import Mathlib
import MapStyle.Proofs.Number.Named

/-!
# What floating-point numbers stand for

A floating-point number stands for a rational, for one of two infinities, or for no number.  Its
comparisons compare what it stands for.
-/

set_option autoImplicit false

namespace MapStyle

namespace FloatReading

open Float.Model (UnpackedFloat)
open Float.Model.UnpackedFloat (Sign)
open FloatOrder FloatBits

/-- What a floating-point number stands for. -/
inductive Reading where
  | nan
  | infinite (sign : Sign)
  | exact (q : ℚ)

def scaled (s : Sign) (m : Nat) (e : Int) : ℚ := (s.apply m : Int) * 2 ^ e

def read : UnpackedFloat → Reading
  | .notANumber => .nan
  | .infinity s => .infinite s
  | .zero _ => .exact 0
  | .finite s m e _ => .exact (scaled s m e)

def reading (x : Float) : Reading := read x.toModel.unpack

/-! ## The order of mantissas and exponents -/

section Pairs

variable {m m' : Nat} {e e' : Int}

theorem scaled_positive (m : Nat) (e : Int) : scaled .positive m e = m * 2 ^ e := by
  rw [scaled]
  rfl

theorem scaled_negative (m : Nat) (e : Int) : scaled .negative m e = -(m * 2 ^ e) := by
  rw [scaled, Sign.apply]
  push_cast
  ring

theorem magnitude_pos (positive : 0 < m) (e : Int) : (0 : ℚ) < m * 2 ^ e := by
  positivity

/-- A value with a lower exponent is less, as it has no more digits. -/
theorem magnitude_lt (fits : Fits m e) (fits' : Fits m' e') (lower : e < e') :
    (m : ℚ) * 2 ^ e < m' * 2 ^ e' := by
  have least := fits.least
  have full : 2 ^ 52 ≤ m' := fits'.full (by omega)
  have power : (0 : ℚ) < 2 ^ e := by positivity
  have step : (2 : ℚ) ^ (e + 1) ≤ 2 ^ e' := zpow_le_zpow_right₀ (by norm_num) (by omega)
  calc (m : ℚ) * 2 ^ e < 2 ^ 53 * 2 ^ e := by
        have bounded : (m : ℚ) < 2 ^ 53 := by exact_mod_cast fits.bounded
        exact mul_lt_mul_of_pos_right bounded power
    _ = 2 ^ 52 * 2 ^ (e + 1) := by
        rw [zpow_add₀ (by norm_num)]
        ring
    _ ≤ m' * 2 ^ e' := by
        have full : (2 : ℚ) ^ 52 ≤ m' := by exact_mod_cast full
        exact mul_le_mul full step (by positivity) (by positivity)

theorem magnitude_le_iff (fits : Fits m e) (fits' : Fits m' e') :
    (m : ℚ) * 2 ^ e ≤ m' * 2 ^ e' ↔ e < e' ∨ e = e' ∧ m ≤ m' := by
  rcases Int.lt_trichotomy e e' with lower | rfl | higher
  · exact iff_of_true (le_of_lt (magnitude_lt fits fits' lower)) (Or.inl lower)
  · have power : (0 : ℚ) < 2 ^ e := by positivity
    rw [mul_le_mul_iff_left₀ power, Nat.cast_le]
    simp
  · have less := magnitude_lt fits' fits higher
    refine iff_of_false (not_le_of_gt less) ?_
    omega

end Pairs

/-! ## The order of what is stood for -/

/-- Whether what is stood for is a number at or before another. -/
inductive Reading.Le : Reading → Reading → Prop
  | exact {a b : ℚ} : a ≤ b → Le (.exact a) (.exact b)
  | negative {s : Reading} : s ≠ .nan → Le (.infinite .negative) s
  | positive {r : Reading} : r ≠ .nan → Le r (.infinite .positive)

namespace Reading

variable {r : Reading} {a b : ℚ}

@[simp] theorem exact_le_exact : (exact a).Le (exact b) ↔ a ≤ b := by
  constructor
  · intro le
    cases le with
    | exact le => exact le
  · exact .exact

@[simp] theorem not_nan_le (r : Reading) : ¬ nan.Le r := by
  intro le
  cases le with
  | positive number => exact number rfl

@[simp] theorem not_le_nan (r : Reading) : ¬ r.Le nan := by
  intro le
  cases le with
  | negative number => exact number rfl

@[simp] theorem negative_le : (infinite .negative).Le r ↔ r ≠ nan := by
  constructor
  · rintro le rfl
    exact not_le_nan _ le
  · exact .negative

@[simp] theorem le_positive : r.Le (infinite .positive) ↔ r ≠ nan := by
  constructor
  · rintro le rfl
    exact not_nan_le _ le
  · exact .positive

@[simp] theorem not_exact_le_negative (a : ℚ) : ¬ (exact a).Le (infinite .negative) := nofun

@[simp] theorem not_positive_le_exact (a : ℚ) : ¬ (infinite .positive).Le (exact a) := nofun

@[simp] theorem not_positive_le_negative : ¬ (infinite .positive).Le (infinite .negative) := nofun

end Reading

theorem atMost_finite_iff {m m' : Nat} {e e' : Int} (fits : Fits m e) (fits' : Fits m' e')
    (positive : 0 < m) (positive' : 0 < m') (s s' : Sign) :
    AtMost (s.apply 1, s.apply e, s.apply m) (s'.apply 1, s'.apply e', s'.apply m') ↔
      scaled s m e ≤ scaled s' m' e' := by
  have above := magnitude_pos positive e
  have above' := magnitude_pos positive' e'
  cases s with
  | positive =>
    rw [scaled_positive]
    cases s' with
    | positive =>
      rw [scaled_positive, magnitude_le_iff fits fits']
      simp [AtMost, Sign.apply]
    | negative =>
      rw [scaled_negative]
      exact iff_of_false (by simp [AtMost, Sign.apply]) (by linarith)
  | negative =>
    rw [scaled_negative]
    cases s' with
    | positive =>
      rw [scaled_positive]
      exact iff_of_true (by simp [AtMost, Sign.apply]) (by linarith)
    | negative =>
      rw [scaled_negative, neg_le_neg_iff, magnitude_le_iff fits' fits]
      simp [AtMost, Sign.apply, eq_comm]

/-- The ranks of two patterns are ordered as what they stand for. -/
theorem rank_le_iff {u v : UnpackedFloat} (shape : Shape u) (shape' : Shape v) :
    (∃ a b, rank u = some a ∧ rank v = some b ∧ AtMost a b) ↔ (read u).Le (read v) := by
  cases shape with
  | notANumber => simp [rank, read]
  | infinity s =>
    cases shape' with
    | notANumber => simp [rank, read]
    | infinity s' => cases s <;> cases s' <;> simp [rank_infinity, AtMost, Sign.apply, read]
    | zero s' => cases s <;> simp [rank, AtMost, read]
    | finite s' => cases s <;> cases s' <;> simp [rank, AtMost, read]
  | zero s =>
    cases shape' with
    | notANumber => simp [rank, read]
    | infinity s' => cases s' <;> simp [rank, AtMost, read]
    | zero s' => simp [rank, AtMost, read]
    | @finite s' m' e' positive' fits' =>
      have above' := magnitude_pos positive' e'
      cases s' with
      | positive => simp [rank, AtMost, read, scaled_positive, le_of_lt above']
      | negative => simp [rank, AtMost, read, scaled_negative, above']
  | @finite s m e positive fits =>
    have above := magnitude_pos positive e
    cases shape' with
    | notANumber => simp [rank, read]
    | infinity s' => cases s <;> cases s' <;> simp [rank, AtMost, read]
    | zero s' =>
      cases s with
      | positive => simp [rank, AtMost, read, scaled_positive, above]
      | negative => simp [rank, AtMost, read, scaled_negative, le_of_lt above]
    | finite s' positive' fits' =>
      have order := atMost_finite_iff fits fits' positive positive' s s'
      simp [rank_finite, read, order]

/-- Numbers are compared by what they stand for. -/
theorem le_iff_reading (x y : Float) : x ≤ y ↔ (reading x).Le (reading y) :=
  (float_le_iff x y).trans (rank_le_iff (shape_unpack x) (shape_unpack y))

end FloatReading

end MapStyle
