import Mathlib.Analysis.SpecialFunctions.Complex.Arg
import Mathlib.Analysis.SpecialFunctions.Pow.Real
import MapStyle.Proofs.Number.Exact

/-!
# Real numbers

The real numbers as numbers of the style language: their arithmetic is exact.
-/

set_option autoImplicit false

namespace MapStyle

namespace Scalar

/-- The real numbers have no infinities and no value that is no number, and numerals for those name
zero; no finite numeral names most of them, and none is written. -/
noncomputable instance : Scalar ℝ where
  decideLe := fun x y => Classical.propDecidable (x ≤ y)
  decideLt := fun x y => Classical.propDecidable (x < y)
  beq := fun x y => @decide (x = y) (Classical.propDecidable _)
  ofNumeral
    | .finite negative d => (if negative then -1 else 1) * d.digits * (10 : ℝ) ^ d.exponent
    | _ => 0
  toNumeral := fun _ _ => .nan
  rem := fun x y => x - y * (if 0 ≤ x / y then ⌊x / y⌋ else ⌈x / y⌉)
  trunc := fun x => if 0 ≤ x then ⌊x⌋ else ⌈x⌉
  round := fun x => if 0 ≤ x then ⌊x + 1 / 2⌋ else ⌈x - 1 / 2⌉
  toInt := fun x => if 0 ≤ x then ⌊x⌋ else ⌈x⌉
  pow := Real.rpow
  sqrt := Real.sqrt
  cbrt := fun x => if 0 ≤ x then Real.rpow x (1 / 3) else -Real.rpow (-x) (1 / 3)
  atan2 := fun y x => Complex.arg ⟨x, y⟩
  sin := Real.sin
  cos := Real.cos

theorem real_ofInt (n : Int) : (ofInt n : ℝ) = n := by
  show (if decide (n < 0) = true then -1 else 1) * ((n.natAbs : ℕ) : ℝ) * (10 : ℝ) ^ (0 : Int) = n
  rw [zpow_zero, mul_one, Nat.cast_natAbs]
  by_cases negative : n < 0
  · rw [if_pos (decide_eq_true negative), abs_of_neg negative, Int.cast_neg]
    ring
  · rw [if_neg (by simpa using negative), abs_of_nonneg (by omega), one_mul]

/-- The numeral zero of the style language is zero. -/
theorem real_zero : @OfNat.ofNat ℝ 0 (literal 0) = (0 : ℝ) :=
  (real_ofInt 0).trans Int.cast_zero

theorem real_beq (x y : ℝ) : (x == y) = true ↔ x = y :=
  @decide_eq_true_iff (x = y) (Classical.propDecidable _)

instance : Exact ℝ where
  lt_iff _ _ := lt_iff_le_not_ge
  beq_iff x y := (real_beq x y).trans ⟨fun same => ⟨same.le, same.ge⟩, fun le => le.1.antisymm le.2⟩
  le_trans _ _ _ xy yz := xy.trans yz
  le_total x y _ _ := LinearOrder.le_total x y
  le_self_of_le x y _ := ⟨le_refl x, le_refl y⟩
  beq_iff_eq := real_beq
  sub_self x := (sub_self x).trans real_zero.symm
  add_zero x := (congrArg (fun zero => x + zero) real_zero).trans (add_zero x)
  mul_zero x :=
    (congrArg (fun zero => x * zero) real_zero).trans ((mul_zero x).trans real_zero.symm)
  zero_div x :=
    (congrArg (fun zero => zero / x) real_zero).trans ((zero_div x).trans real_zero.symm)

/-! ## Remainders -/

theorem real_rem_of_nonneg {x y : ℝ} (nonneg : (0 : ℝ) ≤ x) (positive : (0 : ℝ) < y) :
    (0 : ℝ) ≤ rem x y ∧ rem x y < y := by
  have isFloor : rem x y = x - y * ⌊x / y⌋ := by
    show x - y * ((if 0 ≤ x / y then ⌊x / y⌋ else ⌈x / y⌉ : ℤ) : ℝ) = _
    rw [if_pos (div_nonneg nonneg positive.le)]
  have low := (le_div_iff₀' positive).mp (Int.floor_le (x / y))
  have high := (div_lt_iff₀' positive).mp (Int.lt_floor_add_one (x / y))
  rw [isFloor]
  exact ⟨by linarith, by linarith⟩

theorem abs_real_rem_lt (x : ℝ) {y : ℝ} (positive : (0 : ℝ) < y) : |rem x y| < y := by
  rw [abs_lt]
  by_cases nonneg : (0 : ℝ) ≤ x
  · obtain ⟨low, high⟩ := real_rem_of_nonneg nonneg positive
    exact ⟨by linarith, high⟩
  · have below : x / y < 0 := div_neg_of_neg_of_pos (not_le.mp nonneg) positive
    have isCeil : rem x y = x - y * ⌈x / y⌉ := by
      show x - y * ((if 0 ≤ x / y then ⌊x / y⌋ else ⌈x / y⌉ : ℤ) : ℝ) = _
      rw [if_neg (not_le.mpr below)]
    have atLeast := (div_le_iff₀' positive).mp (Int.le_ceil (x / y))
    have atMost := (lt_div_iff₀' positive).mp (sub_lt_iff_lt_add.mpr (Int.ceil_lt_add_one (x / y)))
    rw [isCeil]
    exact ⟨by linarith, by linarith⟩

end Scalar

end MapStyle
