import Mathlib.Algebra.Group.ModEq
import MapStyle.Proofs.Color.Blending

/-!
# Hues on the shorter arc

Over exact numbers, hues blend along an arc of at most half a turn, which is that of the reversed
blend walked backwards; an end without hue takes that of the other.
-/

set_option autoImplicit false

namespace MapStyle

/-- The signed angle from one hue to another that is no more than half a turn. -/
noncomputable def arc (h0 h1 : ℝ) : ℝ :=
  if 180 < h1 - h0 then h1 - h0 - 360 else if h1 - h0 < -180 then h1 - h0 + 360 else h1 - h0

variable {h0 h1 : ℝ}

theorem abs_arc_le (first : 0 ≤ h0 ∧ h0 < 360) (second : 0 ≤ h1 ∧ h1 < 360) :
    |arc h0 h1| ≤ 180 := by
  rw [abs_le, arc]
  split_ifs <;> constructor <;> linarith

theorem arc_modEq (h0 h1 : ℝ) : arc h0 h1 ≡ h1 - h0 [PMOD 360] := by
  rw [AddCommGroup.modEq_iff_zsmul, arc]
  split_ifs
  · exact ⟨1, by rw [one_zsmul]; ring⟩
  · exact ⟨-1, by rw [neg_zsmul, one_zsmul]; ring⟩
  · exact ⟨0, by rw [zero_zsmul]; ring⟩

/-- The arc back is the same one; opposite hues have the two half turns. -/
theorem arc_swap (h0 h1 : ℝ) : arc h1 h0 = -arc h0 h1 := by
  unfold arc
  split_ifs <;> linarith

theorem add_arc_modEq (h0 h1 : ℝ) : h0 + arc h0 h1 ≡ h1 [PMOD 360] := by
  have shifted := (arc_modEq h0 h1).add_left h0
  rwa [add_sub_cancel] at shifted

theorem walk_modEq (h0 h1 t : ℝ) :
    h0 + arc h0 h1 * t ≡ h1 + arc h1 h0 * (1 - t) [PMOD 360] := by
  have back : h1 + arc h1 h0 * (1 - t) = h1 + (-arc h0 h1 + arc h0 h1 * t) := by
    rw [arc_swap]
    ring
  have there : h0 + arc h0 h1 * t = h0 + arc h0 h1 + (-arc h0 h1 + arc h0 h1 * t) := by
    ring
  rw [back, there]
  exact (add_arc_modEq h0 h1).add_right _

namespace Extended

section

variable [Elementary]

theorem lerpHue_real (h0 h1 t : ℝ) :
    lerpHue (real h0) (real h1) (real t) = real (h0 + arc h0 h1 * t) := by
  unfold lerpHue arc
  simp only [isNaN_real, Bool.false_eq_true, if_false, ofNat_eq, Nat.reducePow, Nat.reduceLeDiff,
    real_neg, real_sub, real_lt]
  split_ifs <;> simp only [real_add, real_mul]

theorem lerpHue_nan (h t : Extended) : lerpHue nan h t = h ∧ lerpHue h nan t = h := by
  constructor
  · rw [lerpHue, isNaN_nan, if_pos rfl]
  · unfold lerpHue
    split
    · rename_i isNaN
      exact (isNaN_iff.mp isNaN).symm
    · rw [isNaN_nan, if_pos rfl]

/-- Between two hues within a turn, the blend walks an arc of at most half a turn that leads from
the first to the second, up to whole turns, and the reversed blend meets it everywhere.  Where one
end has no hue, both orders give the hue of the other. -/
theorem lerpHue_shorterArc (first : 0 ≤ h0 ∧ h0 < 360) (second : 0 ≤ h1 ∧ h1 < 360) :
    (∃ d : ℝ, |d| ≤ 180 ∧ d ≡ h1 - h0 [PMOD 360] ∧
      ∀ t : ℝ, lerpHue (real h0) (real h1) (real t) = real (h0 + d * t)) ∧
    lerpHue (real h0) (real h1) (real 0) = real h0 ∧
    (∃ h, lerpHue (real h0) (real h1) (real 1) = real h ∧ h ≡ h1 [PMOD 360]) ∧
    (∀ t : ℝ, ∃ h h', lerpHue (real h0) (real h1) (real t) = real h ∧
      lerpHue (real h1) (real h0) (real (1 - t)) = real h' ∧ h ≡ h' [PMOD 360]) ∧
    ∀ t : Extended, lerpHue nan (real h0) t = real h0 ∧ lerpHue (real h0) nan t = real h0 := by
  simp only [lerpHue_real]
  refine ⟨⟨arc h0 h1, abs_arc_le first second, arc_modEq h0 h1, fun t => rfl⟩, ?_, ?_, ?_,
    lerpHue_nan (real h0)⟩
  · rw [mul_zero, add_zero]
  · refine ⟨_, rfl, ?_⟩
    rw [mul_one]
    exact add_arc_modEq h0 h1
  · intro t
    exact ⟨_, _, rfl, rfl, walk_modEq h0 h1 t⟩

end

/-- Opposite hues meet, though each order goes its own way round. -/
theorem lerpHue_shorterArc_of_opposites :
    ((0 : ℝ) ≤ 90 ∧ (90 : ℝ) < 360) ∧ ((0 : ℝ) ≤ 270 ∧ (270 : ℝ) < 360) ∧
      ∃ h h', lerpHue (real 90) (real 270) (real (1 / 4)) = real h ∧
        lerpHue (real 270) (real 90) (real (3 / 4)) = real h' ∧ h ≡ h' [PMOD 360] := by
  have first : (0 : ℝ) ≤ 90 ∧ (90 : ℝ) < 360 := by norm_num
  have second : (0 : ℝ) ≤ 270 ∧ (270 : ℝ) < 360 := by norm_num
  obtain ⟨_, _, _, meets, _⟩ := lerpHue_shorterArc first second
  have rest : (1 : ℝ) - 1 / 4 = 3 / 4 := by norm_num
  exact ⟨first, second, rest ▸ meets (1 / 4)⟩

end Extended

end MapStyle
