import MapStyle.Proofs.Color.Validity
import MapStyle.Interpolation.Blend

/-!
# Blending keeps colors valid

Over exact numbers the blend of two valid colors is a valid color in each space, and its alpha is
blended along the straight line.  Components that come back from Lab or HCL coordinates are moved
into the range of components, so all that can go wrong on the way is that a value is no number: no
root is taken of a negative number, no power but of a positive one, and a hue that is no number
counts as zero.
-/

set_option autoImplicit false

namespace MapStyle

open Extended

theorem blended_le {x x' y y' t : ℝ} (left : x ≤ x') (right : y ≤ y') (place : 0 ≤ t ∧ t ≤ 1) :
    x + (y - x) * t ≤ x' + (y' - x') * t := by
  have leftPart : x * (1 - t) ≤ x' * (1 - t) :=
    mul_le_mul_of_nonneg_right left (sub_nonneg.mpr place.2)
  have rightPart : y * t ≤ y' * t := mul_le_mul_of_nonneg_right right place.1
  linarith

section

variable [Elementary]

/-! ## Coordinates of valid colors -/

namespace Lab

theorem linear_isReal {v : Extended} (given : IsReal v) : IsReal (linear v) := by
  obtain ⟨x, rfl⟩ := given
  unfold linear
  simp only [decimal_eq, Nat.reducePow, Nat.reduceLeDiff, real_le, real_add]
  split
  · rw [real_div (by norm_num)]
    exact isReal_real _
  · rename_i above
    rw [real_div (by norm_num)]
    refine Elementary.pow_real _ _ ?_
    norm_num at above ⊢
    linarith

theorem companded_inUnit {v : Extended} (given : IsReal v) : InUnit (companded v) := by
  obtain ⟨x, rfl⟩ := given
  have isReal (w : Extended) (given : IsReal w) : InUnit (Scalar.clamp (real 0) (real 1) w) := by
    obtain ⟨y, rfl⟩ := given
    exact clamp_real Extended.noConfusion zero_le_one
  unfold companded
  simp only [zero_eq, one_eq, decimal_eq, Nat.reducePow, Nat.reduceLeDiff, real_le, real_mul]
  refine isReal _ ?_
  split
  · exact isReal_real _
  · rename_i above
    have positive : 0 < x := by
      norm_num at above
      linarith
    rw [real_div (by norm_num)]
    exact ((isReal_real _).mul (Elementary.pow_real x _ positive)).sub (isReal_real _)

theorem slope_eq : (slope : Extended) = real (3 * (6 / 29) * (6 / 29)) := by
  simp [slope, threshold, real_div]

theorem offset_eq : (offset : Extended) = real (4 / 29) := by
  simp [offset, real_div]

theorem toScale_isReal {v : Extended} (given : IsReal v) : IsReal (toScale v) := by
  unfold toScale
  split
  · exact given.cbrt
  · rw [slope_eq, offset_eq]
    exact (given.div (by norm_num)).add (isReal_real _)

theorem ofScale_isReal {v : Extended} (given : IsReal v) : IsReal (ofScale v) := by
  unfold ofScale
  split
  · exact (given.mul given).mul given
  · rw [slope_eq, offset_eq]
    exact (isReal_real _).mul (given.sub (isReal_real _))

theorem whiteX_eq : (whiteX : Extended) = real 0.96422 := by
  simp [whiteX]

theorem whiteY_eq : (whiteY : Extended) = real 1.0 := by
  simp [whiteY]

theorem whiteZ_eq : (whiteZ : Extended) = real 0.82521 := by
  simp [whiteZ]

structure AllReal (lab : Lab Extended) : Prop where
  l : IsReal lab.l
  a : IsReal lab.a
  b : IsReal lab.b
  alpha : IsReal lab.alpha

end Lab

namespace Color

theorem straight_isReal {c : Color Extended} (valid : c.IsValid) :
    IsReal c.straight.1 ∧ IsReal c.straight.2.1 ∧ IsReal c.straight.2.2.1 ∧
      c.straight.2.2.2 = c.a := by
  obtain ⟨r, g, b, a, rfl, _⟩ := isValid_iff.mp valid
  unfold straight
  simp only [zero_eq]
  split
  · rename_i isZero
    exact ⟨isReal_real 0, isReal_real 0, isReal_real 0, congrArg real (real_beq.mp isZero).symm⟩
  · rename_i notZero
    have ne : a ≠ 0 := fun isZero => notZero (real_beq.mpr isZero)
    exact ⟨(isReal_real r).div ne, (isReal_real g).div ne, (isReal_real b).div ne, rfl⟩

theorem toLab_allReal {c : Color Extended} (valid : c.IsValid) :
    c.toLab.AllReal ∧ c.toLab.alpha = c.a := by
  obtain ⟨red, green, blue, alpha⟩ := straight_isReal valid
  obtain ⟨_, _, _, a, isColor, _⟩ := isValid_iff.mp valid
  have alphaReal : IsReal c.a := by
    rw [isColor]
    exact isReal_real a
  unfold toLab
  rcases parts : c.straight with ⟨r, g, b, alpha'⟩
  rw [parts] at red green blue alpha
  obtain rfl : alpha' = c.a := alpha
  have redReal := Lab.linear_isReal red
  have greenReal := Lab.linear_isReal green
  have blueReal := Lab.linear_isReal blue
  dsimp only at redReal greenReal blueReal
  have tristimulus (k m n : ℝ) {w : ℝ} (ne : w ≠ 0) : IsReal (Lab.toScale
      ((real k * Lab.linear r + real m * Lab.linear g + real n * Lab.linear b) / real w)) := by
    refine Lab.toScale_isReal (IsReal.div ?_ ne)
    exact (((isReal_real k).mul redReal).add ((isReal_real m).mul greenReal)).add
      ((isReal_real n).mul blueReal)
  simp only [Lab.whiteX_eq, Lab.whiteY_eq, Lab.whiteZ_eq, zero_eq, ofNat_eq, decimal_eq,
    Nat.reducePow, Nat.reduceLeDiff]
  have yReal := tristimulus 0.2225045 0.7168786 0.0606169 (w := 1.0) (by norm_num)
  have xReal := tristimulus 0.4360747 0.3850649 0.1430804 (w := 0.96422) (by norm_num)
  have zReal := tristimulus 0.0139322 0.0971045 0.7141733 (w := 0.82521) (by norm_num)
  have lightness := (((isReal_real 116).mul yReal).sub (isReal_real 16)).max (isReal_real 0)
  split
  · exact ⟨⟨lightness, (isReal_real 500).mul (yReal.sub yReal), (isReal_real 200).mul
      (yReal.sub yReal), alphaReal⟩, trivial⟩
  · exact ⟨⟨lightness, (isReal_real 500).mul (xReal.sub yReal), (isReal_real 200).mul
      (yReal.sub zReal), alphaReal⟩, trivial⟩

theorem ofLab_isValid {lab : Lab Extended} (allReal : lab.AllReal) (alpha : InUnit lab.alpha) :
    (ofLab lab).IsValid := by
  unfold ofLab
  simp only [Lab.whiteX_eq, Lab.whiteY_eq, Lab.whiteZ_eq, ofNat_eq, decimal_eq, Nat.reducePow,
    Nat.reduceLeDiff]
  have yScale : IsReal ((lab.l + real 16) / real 116) :=
    (allReal.l.add (isReal_real 16)).div (by norm_num)
  have xScale : IsReal (if Scalar.isNaN lab.a = true then (lab.l + real 16) / real 116
      else (lab.l + real 16) / real 116 + lab.a / real 500) := by
    split
    · exact yScale
    · exact yScale.add (allReal.a.div (by norm_num))
  have zScale : IsReal (if Scalar.isNaN lab.b = true then (lab.l + real 16) / real 116
      else (lab.l + real 16) / real 116 - lab.b / real 200) := by
    split
    · exact yScale
    · exact yScale.sub (allReal.b.div (by norm_num))
  have weighted (k white : ℝ) {scale : Extended} (isReal : IsReal scale) :
      IsReal (real k * (real white * Lab.ofScale scale)) :=
    (isReal_real k).mul ((isReal_real white).mul (Lab.ofScale_isReal isReal))
  refine ofStraight_isValid (Lab.companded_inUnit ?_) (Lab.companded_inUnit ?_)
    (Lab.companded_inUnit ?_) alpha
  · exact ((weighted _ _ xScale).sub (weighted _ _ yScale)).sub (weighted _ _ zScale)
  · exact ((weighted _ _ xScale).add (weighted _ _ yScale)).add (weighted _ _ zScale)
  · exact ((weighted _ _ xScale).sub (weighted _ _ yScale)).add (weighted _ _ zScale)

theorem wrapAngle_isReal {v : Extended} (given : IsReal v) : IsReal (wrapAngle v) := by
  unfold wrapAngle
  simp only [zero_eq, ofNat_eq, Nat.reducePow, Nat.reduceLeDiff]
  have wrapped : IsReal (Scalar.rem v (real 360)) := given.rem (by norm_num)
  split
  · exact wrapped.add (isReal_real 360)
  · exact wrapped

/-- Hue aside, which may be no number, the coordinates of a valid color are real numbers, with the
alpha of the color. -/
theorem toHcl_isReal {c : Color Extended} (valid : c.IsValid) :
    (IsReal c.toHcl.h ∨ c.toHcl.h = nan) ∧ IsReal c.toHcl.c ∧ IsReal c.toHcl.l ∧
      c.toHcl.alpha = c.a := by
  obtain ⟨allReal, alpha⟩ := toLab_allReal valid
  refine ⟨?_, ?_, allReal.l, alpha⟩
  · unfold toHcl degreesPerRadian
    simp only [decimal_eq, Nat.reducePow, Nat.reduceLeDiff]
    split
    · exact Or.inr rfl
    · exact Or.inl (wrapAngle_isReal ((allReal.b.atan2 allReal.a).mul (isReal_real _)))
  · obtain ⟨x, isA⟩ := allReal.a
    obtain ⟨y, isB⟩ := allReal.b
    have nonneg : 0 ≤ x * x + y * y := add_nonneg (mul_self_nonneg x) (mul_self_nonneg y)
    show IsReal (Scalar.sqrt (c.toLab.a * c.toLab.a + c.toLab.b * c.toLab.b))
    rw [isA, isB]
    exact Elementary.sqrt_real _ nonneg

/-- Coordinates that are real numbers, or have a hue that is no number, with an alpha from zero to
one, are those of a valid color. -/
theorem ofHcl_isValid {hcl : Hcl Extended} (hue : IsReal hcl.h ∨ hcl.h = nan)
    (chroma : IsReal hcl.c) (luminance : IsReal hcl.l) (alpha : InUnit hcl.alpha) :
    (ofHcl hcl).IsValid := by
  have angle : IsReal (if Scalar.isNaN hcl.h then real 0
      else hcl.h * (real 3.14159265358979323846264338327950288 / real 180)) := by
    split
    · exact isReal_real 0
    · rename_i number
      have isReal : IsReal hcl.h := hue.resolve_right fun isNaN => number (isNaN_iff.mpr isNaN)
      exact isReal.mul ((isReal_real _).div (by norm_num))
  unfold ofHcl radiansPerDegree
  simp only [zero_eq, ofNat_eq, decimal_eq, Nat.reducePow, Nat.reduceLeDiff]
  exact ofLab_isValid ⟨luminance, angle.cos.mul chroma, angle.sin.mul chroma, alpha.isReal⟩ alpha

end Color

/-! ## Blending -/

theorem lerp_real (x y t : ℝ) : lerp (real x) (real y) (real t) = real (x + (y - x) * t) := by
  rw [lerp, real_sub, real_mul, real_add]

theorem lerp_isReal {v w t : Extended} (left : IsReal v) (right : IsReal w) (place : IsReal t) :
    IsReal (lerp v w t) :=
  left.add ((right.sub left).mul place)

theorem lerpHue_isReal {v w t : Extended} (left : IsReal v ∨ v = nan) (right : IsReal w ∨ w = nan)
    (place : IsReal t) : IsReal (lerpHue v w t) ∨ lerpHue v w t = nan := by
  unfold lerpHue
  split
  · exact right
  · rename_i leftNumber
    split
    · exact left
    · rename_i rightNumber
      have v' : IsReal v := left.resolve_right fun isNaN => leftNumber (isNaN_iff.mpr isNaN)
      have w' : IsReal w := right.resolve_right fun isNaN => rightNumber (isNaN_iff.mpr isNaN)
      simp only [ofNat_eq, Nat.reducePow, Nat.reduceLeDiff]
      refine Or.inl (v'.add (IsReal.mul ?_ place))
      split
      · exact (w'.sub v').sub (isReal_real 360)
      · split
        · exact (w'.sub v').add (isReal_real 360)
        · exact w'.sub v'

namespace ColorSpace

variable {x y : Color Extended} {t : ℝ}

theorem lerp_alpha_inUnit (left : x.IsValid) (right : y.IsValid) (place : 0 ≤ t ∧ t ≤ 1) :
    InUnit (lerp x.a y.a (real t)) := by
  obtain ⟨_, _, _, a, rfl, red, _, _, high⟩ := Color.isValid_iff.mp left
  obtain ⟨_, _, _, a', rfl, red', _, _, high'⟩ := Color.isValid_iff.mp right
  have atLeast := blended_le (red.1.trans red.2) (red'.1.trans red'.2) place
  have atMost := blended_le high high' place
  refine ⟨a + (a' - a) * t, lerp_real a a' t, ?_, ?_⟩ <;> linarith

theorem rgb_isValid (left : x.IsValid) (right : y.IsValid) (place : 0 ≤ t ∧ t ≤ 1) :
    (rgb.blend x y (real t)).IsValid := by
  obtain ⟨r, g, b, a, rfl, red, green, blue, alpha⟩ := Color.isValid_iff.mp left
  obtain ⟨r', g', b', a', rfl, red', green', blue', alpha'⟩ := Color.isValid_iff.mp right
  have between {v v' : ℝ} (isLeft : 0 ≤ v ∧ v ≤ a) (isRight : 0 ≤ v' ∧ v' ≤ a') :
      0 ≤ v + (v' - v) * t ∧ v + (v' - v) * t ≤ a + (a' - a) * t := by
    have atLeast := blended_le isLeft.1 isRight.1 place
    exact ⟨by linarith, blended_le isLeft.2 isRight.2 place⟩
  have atMost := blended_le alpha alpha' place
  refine Color.isValid_iff.mpr ⟨_, _, _, _, ?_, between red red', between green green',
    between blue blue', by linarith⟩
  simp only [blend, lerp_real]

theorem blend_isValid (space : ColorSpace) (left : x.IsValid) (right : y.IsValid)
    (place : 0 ≤ t ∧ t ≤ 1) : (space.blend x y (real t)).IsValid ∧
      (space.blend x y (real t)).a = lerp x.a y.a (real t) := by
  have inUnit := lerp_alpha_inUnit left right place
  have isReal := isReal_real t
  cases space with
  | rgb => exact ⟨rgb_isValid left right place, rfl⟩
  | lab =>
    obtain ⟨p, alpha⟩ := Color.toLab_allReal left
    obtain ⟨q, alpha'⟩ := Color.toLab_allReal right
    rw [← alpha, ← alpha'] at inUnit ⊢
    exact ⟨Color.ofLab_isValid ⟨lerp_isReal p.l q.l isReal, lerp_isReal p.a q.a isReal,
      lerp_isReal p.b q.b isReal, inUnit.isReal⟩ inUnit, rfl⟩
  | hcl =>
    obtain ⟨hue, chroma, luminance, alpha⟩ := Color.toHcl_isReal left
    obtain ⟨hue', chroma', luminance', alpha'⟩ := Color.toHcl_isReal right
    rw [← alpha, ← alpha'] at inUnit ⊢
    exact ⟨Color.ofHcl_isValid (lerpHue_isReal hue hue' isReal) (lerp_isReal chroma chroma' isReal)
      (lerp_isReal luminance luminance' isReal) inUnit, rfl⟩

theorem rgb_at_ends (left : x.IsValid) (right : y.IsValid) :
    rgb.blend x y (real 0) = x ∧ rgb.blend x y (real 1) = y := by
  obtain ⟨r, g, b, a, rfl, _⟩ := Color.isValid_iff.mp left
  obtain ⟨r', g', b', a', rfl, _⟩ := Color.isValid_iff.mp right
  have atZero (v v' : ℝ) : v + (v' - v) * 0 = v := by ring
  have atOne (v v' : ℝ) : v + (v' - v) * 1 = v' := by ring
  constructor <;> simp only [blend, lerp_real, atZero, atOne]

end ColorSpace

open scoped Scalar

/-- Over exact numbers, whatever powers, roots and angles are, a part of the way between valid
colors is a valid color in each space, and its alpha is that part of the way between theirs; in RGB
the ends are the colors themselves.  So arrays of valid colors blend to arrays of valid colors. -/
theorem ColorSpace.blend_keeps_valid {t : Extended} (low : 0 ≤ t) (high : t ≤ 1) :
    (∀ (space : ColorSpace) (x y : Color Extended), x.IsValid → y.IsValid →
      (space.blend x y t).IsValid ∧ (space.blend x y t).a = x.a + (y.a - x.a) * t) ∧
    (∀ x y : Color Extended, x.IsValid → y.IsValid →
      ColorSpace.rgb.blend x y 0 = x ∧ ColorSpace.rgb.blend x y 1 = y) ∧
    ∀ (space : ColorSpace) (xs ys : List (Color Extended)), xs.length = ys.length →
      (∀ x ∈ xs, x.IsValid) → (∀ y ∈ ys, y.IsValid) →
      ∃ zs, Value.blend space (.colorArray xs) (.colorArray ys) t = .colorArray zs ∧
        zs.length = xs.length ∧ ∀ z ∈ zs, z.IsValid := by
  simp only [zero_eq, one_eq] at low high ⊢
  obtain ⟨t, rfl, place⟩ := exists_real_of_between low high
  refine ⟨fun space x y left right => space.blend_isValid left right place,
    fun x y left right => rgb_at_ends left right, ?_⟩
  intro space xs ys same left right
  refine ⟨List.zipWith (fun x y => space.blend x y (real t)) xs ys, if_pos same, ?_, ?_⟩
  · rw [List.length_zipWith, same, min_self]
  · intro z mem
    rw [← List.map_uncurry_zip_eq_zipWith] at mem
    obtain ⟨⟨x, y⟩, pair, rfl⟩ := List.mem_map.mp mem
    obtain ⟨isX, isY⟩ := List.of_mem_zip pair
    exact (space.blend_isValid (left x isX) (right y isY) place).1

end

open scoped Scalar in
theorem ColorSpace.blend_keeps_valid_halfway : (0 : Extended) ≤ 0.5 ∧ (0.5 : Extended) ≤ 1 ∧
    (⟨0.2, 0.1, 0, 0.4⟩ : Color Extended).IsValid ∧
    ∀ space : ColorSpace, (space.blend ⟨0.2, 0.1, 0, 0.4⟩ .white (0.5 : Extended)).IsValid := by
  have low : (0 : Extended) ≤ 0.5 := by
    simp
    norm_num
  have high : (0.5 : Extended) ≤ 1 := by
    simp
    norm_num
  have left : (⟨0.2, 0.1, 0, 0.4⟩ : Color Extended).IsValid := by
    refine ⟨?_, ?_, ?_, ?_⟩ <;> simp <;> norm_num
  have right : (Color.white : Color Extended).IsValid := by
    refine ⟨?_, ?_, ?_, ?_⟩ <;> simp [Color.white]
  obtain ⟨valid, _⟩ := ColorSpace.blend_keeps_valid low high
  exact ⟨low, high, left, fun space => (valid space _ _ left right).1⟩

end MapStyle
