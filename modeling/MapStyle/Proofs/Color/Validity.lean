import MapStyle.Proofs.Number.Extended
import MapStyle.Color.Basic

/-!
# Valid colors

A color is valid if its components, which are multiplied by its alpha, are from zero to the alpha,
and the alpha is at most one; none of the four is then without a number.  Straight components and an
alpha from zero to one give a valid color.
-/

set_option autoImplicit false

namespace MapStyle

namespace Color

section

variable {ν : Type} [Scalar ν]

open scoped Scalar

/-- Components from zero to the alpha, and an alpha up to one. -/
structure IsValid (c : Color ν) : Prop where
  red : 0 ≤ c.r ∧ c.r ≤ c.a
  green : 0 ≤ c.g ∧ c.g ≤ c.a
  blue : 0 ≤ c.b ∧ c.b ≤ c.a
  alpha : c.a ≤ 1

end

theorem premultiplied {v a : ℝ} (isComponent : 0 ≤ v ∧ v ≤ 1) (nonneg : 0 ≤ a) :
    0 ≤ v * a ∧ v * a ≤ a :=
  ⟨mul_nonneg isComponent.1 nonneg, mul_le_of_le_one_left nonneg isComponent.2⟩

open Extended

variable [Elementary]

/-- Over exact numbers the components of valid colors are real numbers. -/
theorem isValid_iff {c : Color Extended} : c.IsValid ↔ ∃ r g b a : ℝ,
    c = ⟨real r, real g, real b, real a⟩ ∧ (0 ≤ r ∧ r ≤ a) ∧ (0 ≤ g ∧ g ≤ a) ∧
      (0 ≤ b ∧ b ≤ a) ∧ a ≤ 1 := by
  obtain ⟨r, g, b, a⟩ := c
  constructor
  · rintro ⟨⟨redLow, redHigh⟩, ⟨greenLow, greenHigh⟩, ⟨blueLow, blueHigh⟩, alpha⟩
    simp only [zero_eq, one_eq] at redLow redHigh greenLow greenHigh blueLow blueHigh alpha
    obtain ⟨a, rfl, _, isAlpha⟩ :=
      exists_real_of_between (Scalar.le_trans redLow redHigh) alpha
    obtain ⟨r, rfl, isRed⟩ := exists_real_of_between redLow redHigh
    obtain ⟨g, rfl, isGreen⟩ := exists_real_of_between greenLow greenHigh
    obtain ⟨b, rfl, isBlue⟩ := exists_real_of_between blueLow blueHigh
    exact ⟨r, g, b, a, rfl, isRed, isGreen, isBlue, isAlpha⟩
  · rintro ⟨r, g, b, a, isColor, red, green, blue, alpha⟩
    cases isColor
    refine ⟨?_, ?_, ?_, ?_⟩ <;> simpa only [zero_eq, one_eq, real_le]

theorem ofStraight_isValid {r g b a : Extended} (red : InUnit r) (green : InUnit g)
    (blue : InUnit b) (alpha : InUnit a) : (ofStraight r g b a).IsValid := by
  obtain ⟨r, rfl, isRed⟩ := red
  obtain ⟨g, rfl, isGreen⟩ := green
  obtain ⟨b, rfl, isBlue⟩ := blue
  obtain ⟨a, rfl, nonneg, isAlpha⟩ := alpha
  exact isValid_iff.mpr ⟨r * a, g * a, b * a, a, rfl, premultiplied isRed nonneg,
    premultiplied isGreen nonneg, premultiplied isBlue nonneg, isAlpha⟩

end Color

end MapStyle
