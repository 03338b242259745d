import MapStyle.Proofs.Number.Real

/-!
# Numbers among the reals

Numbers that are reals and are calculated with exactly, whatever their powers are.  Of powers it is
said apart that the exponent zero gives one, and that for a base other than one they ascend or
descend strictly with the exponent.
-/

set_option autoImplicit false

namespace MapStyle

open scoped Scalar

/-- Numbers that are reals, compared and calculated with as such. -/
class Scalar.InReals (ν : Type) [Scalar ν] where
  value : ν → ℝ
  value_injective : Function.Injective value
  value_ofInt : ∀ n : Int, value (Scalar.ofInt n) = n
  value_add : ∀ x y : ν, value (x + y) = value x + value y
  value_sub : ∀ x y : ν, value (x - y) = value x - value y
  value_mul : ∀ x y : ν, value (x * y) = value x * value y
  value_div : ∀ x y : ν, value (x / y) = value x / value y
  le_iff : ∀ x y : ν, x ≤ y ↔ value x ≤ value y
  lt_iff : ∀ x y : ν, x < y ↔ value x < value y
  beq_iff : ∀ x y : ν, (x == y) = true ↔ x = y

/-- Of powers of positive bases: the exponent zero gives one, and where the base is not one they
ascend or descend strictly with the exponent. -/
structure Scalar.PowersOrdered (ν : Type) [Scalar ν] : Prop where
  zero : ∀ b : ν, 0 < b → pow b 0 = 1
  strict : ∀ b : ν, 0 < b → b ≠ 1 →
    (∀ x y, x < y → pow b x < pow b y) ∨ ∀ x y, x < y → pow b y < pow b x

namespace Scalar.InReals

noncomputable instance : InReals ℝ where
  value x := x
  value_injective _ _ same := same
  value_ofInt := real_ofInt
  value_add _ _ := rfl
  value_sub _ _ := rfl
  value_mul _ _ := rfl
  value_div _ _ := rfl
  le_iff _ _ := Iff.rfl
  lt_iff _ _ := Iff.rfl
  beq_iff := real_beq

theorem powersOrdered_real : PowersOrdered ℝ where
  zero b _ := by
    show Real.rpow b (Scalar.ofInt 0) = Scalar.ofInt 1
    rw [real_ofInt, real_ofInt, Int.cast_zero, Int.cast_one]
    exact Real.rpow_zero b
  strict b positive notOne := by
    have positive : (0 : ℝ) < b := by
      have literal : (Scalar.ofInt 0 : ℝ) < b := positive
      rwa [real_ofInt, Int.cast_zero] at literal
    have notOne : b ≠ (1 : ℝ) := by
      have literal : b ≠ (Scalar.ofInt 1 : ℝ) := notOne
      rwa [real_ofInt, Int.cast_one] at literal
    rcases lt_or_gt_of_ne notOne with below | above
    · exact Or.inr fun x y lt => Real.rpow_lt_rpow_of_exponent_gt positive below lt
    · exact Or.inl fun x y lt => Real.rpow_lt_rpow_of_exponent_lt above lt

variable {ν : Type} [Scalar ν] [InReals ν]

@[simp] theorem value_zero : value (0 : ν) = 0 := (value_ofInt 0).trans Int.cast_zero

@[simp] theorem value_one : value (1 : ν) = 1 := (value_ofInt 1).trans Int.cast_one

instance : Exact ν where
  lt_iff x y := by
    rw [lt_iff x y, le_iff x y, le_iff y x]
    exact lt_iff_le_not_ge
  beq_iff x y := by
    rw [beq_iff x y, le_iff x y, le_iff y x]
    constructor
    · intro same
      have values : value x = value y := congrArg value same
      exact ⟨values.le, values.ge⟩
    · intro le
      exact value_injective (le.1.antisymm le.2)
  le_trans x y z xy yz :=
    (le_iff x z).mpr (((le_iff x y).mp xy).trans ((le_iff y z).mp yz))
  le_total x y _ _ := by
    rw [le_iff x y, le_iff y x]
    exact LinearOrder.le_total (value x) (value y)
  le_self_of_le x y _ := ⟨(le_iff x x).mpr le_rfl, (le_iff y y).mpr le_rfl⟩
  beq_iff_eq := beq_iff
  sub_self x := value_injective (by rw [value_sub, sub_self, value_zero])
  add_zero x := value_injective (by rw [value_add, value_zero, add_zero])
  mul_zero x := value_injective (by rw [value_mul, value_zero, mul_zero])
  zero_div x := value_injective (by rw [value_div, value_zero, zero_div])

theorem beq_self (x : ν) : (x == x) = true := (beq_iff x x).mpr rfl

theorem le_refl (x : ν) : x ≤ x := Scalar.le_of_beq (beq_self x)

end Scalar.InReals

end MapStyle
