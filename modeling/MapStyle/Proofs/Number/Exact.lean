import MapStyle.Interpolation.Blend
import MapStyle.Interpolation.Curve
import MapStyle.Proofs.Number.Order

/-!
# Exact arithmetic

Arithmetic in which nothing is rounded, and what is used of it where an input stands on a stop: the
place of the input between the stops is zero, and a blend at zero is the first value.
-/

set_option autoImplicit false

namespace MapStyle

open scoped Scalar

/-- Arithmetic that is exact on all values: equal values are one, the difference of a value and
itself is zero, and zero is what it is for sums, products and quotients. -/
class Scalar.Exact (ν : Type) [Scalar ν] : Prop extends Scalar.Ordered ν where
  beq_iff_eq : ∀ x y : ν, (x == y) = true ↔ x = y
  sub_self : ∀ x : ν, x - x = 0
  add_zero : ∀ x : ν, x + 0 = x
  mul_zero : ∀ x : ν, x * 0 = 0
  zero_div : ∀ x : ν, 0 / x = 0

variable {ν : Type} [Scalar ν] [Scalar.Exact ν]

theorem lerp_zero (a b : ν) : lerp a b 0 = a := by
  rw [lerp, Scalar.Exact.mul_zero, Scalar.Exact.add_zero]

theorem linear_factor_self {x lower : ν} (same : (x == lower) = true) (upper : ν) :
    Curve.linear.factor x lower upper = 0 := by
  obtain rfl := (Scalar.Exact.beq_iff_eq x lower).mp same
  have straight : ((1 : ν) == 1) = true := (Scalar.Exact.beq_iff_eq 1 1).mpr rfl
  simp only [Curve.factor, exponentialFactor, Curve.base, straight, Scalar.Exact.sub_self,
    Scalar.Exact.zero_div, if_true]
  split <;> rfl

theorem lerpNumbers_zero (xs ys : List ν) : lerpNumbers xs ys 0 = xs := by
  unfold lerpNumbers
  split
  · rename_i same
    induction xs generalizing ys with
    | nil => rfl
    | cons x xs ih =>
      cases ys with
      | nil => cases same
      | cons y ys => rw [List.zipWith_cons_cons, lerp_zero, ih ys (by simpa using same)]
  · rfl

theorem lerpItems?_zero {xs ys items : List (Value ν)} (same : xs.length = ys.length)
    (blended : lerpItems? 0 xs ys = some items) : items = xs := by
  induction xs generalizing ys items with
  | nil =>
    simp only [lerpItems?] at blended
    exact (Option.some.inj blended).symm
  | cons x xs ih =>
    cases ys with
    | nil => cases same
    | cons y ys =>
      unfold lerpItems? at blended
      split at blended
      · rename_i left right
        obtain ⟨rfl, rfl⟩ := List.cons.inj left
        obtain ⟨rfl, rfl⟩ := List.cons.inj right
        obtain ⟨more, later, rfl⟩ := Option.map_eq_some_iff.mp blended
        rw [lerp_zero, ih (by simpa using same) later]
      · cases blended
      · rename_i someEmpty
        exact (someEmpty x xs y ys rfl rfl).elim

/-- A blend at zero is the first value; colors are the exception, which pass through a space. -/
theorem Value.blend_zero (space : ColorSpace) {a : Value ν} (noColor : a.ty ≠ .color)
    (noColors : a.ty ≠ .colorArray) (b : Value ν) : a.blend space b 0 = a := by
  unfold Value.blend
  split
  · rw [lerp_zero]
  · exact absurd rfl noColor
  · simp only [Padding.lerp, lerp_zero]
  · rw [lerpNumbers_zero]
  · exact absurd rfl noColors
  · split
    · rename_i same
      split
      · rename_i items blended
        rw [lerpItems?_zero same blended]
      · rfl
    · rfl
  · rfl

section Self

variable (zeroMul : ∀ t : ν, 0 * t = 0)
include zeroMul

theorem lerp_self (x t : ν) : lerp x x t = x := by
  rw [lerp, Scalar.Exact.sub_self, zeroMul, Scalar.Exact.add_zero]

theorem lerpNumbers_self (xs : List ν) (t : ν) : lerpNumbers xs xs t = xs := by
  rw [lerpNumbers, if_pos rfl]
  induction xs with
  | nil => rfl
  | cons x xs ih => rw [List.zipWith_cons_cons, lerp_self zeroMul, ih]

theorem lerpItems?_self {t : ν} {xs items : List (Value ν)}
    (blended : lerpItems? t xs xs = some items) : items = xs := by
  induction xs generalizing items with
  | nil => exact (Option.some.inj blended).symm
  | cons x xs ih =>
    cases x with
    | number x =>
      obtain ⟨more, later, rfl⟩ := Option.map_eq_some_iff.mp blended
      rw [lerp_self zeroMul, ih later]
    | _ => cases blended

theorem Value.blend_self (space : ColorSpace) {a : Value ν} (noColor : a.ty ≠ .color)
    (noColors : a.ty ≠ .colorArray) (t : ν) : a.blend space a t = a := by
  cases a with
  | number x => rw [Value.blend, lerp_self zeroMul]
  | color c => exact absurd rfl noColor
  | padding p => simp only [Value.blend, Padding.lerp, lerp_self zeroMul]
  | numberArray xs => rw [Value.blend, lerpNumbers_self zeroMul]
  | colorArray cs => exact absurd rfl noColors
  | array xs =>
    rw [Value.blend, if_pos rfl]
    split
    · rename_i items blended
      rw [lerpItems?_self zeroMul blended]
    · rfl
  | _ => rfl

end Self

end MapStyle
