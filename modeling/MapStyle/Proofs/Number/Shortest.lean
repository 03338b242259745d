import Mathlib.Algebra.Order.Field.Power
import Mathlib.Algebra.Order.Ring.Cast
import Mathlib.Data.Rat.Cast.Order
import Mathlib.Tactic.Linarith
import Mathlib.Tactic.Positivity
import MapStyle.Number.Shortest
import MapStyle.Proofs.Number.Written

/-!
# What a shortest decimal names

The reals that round to a binary value form an interval around it, and the shortest decimal of the
value lies in that interval.  The intervals of two values do not meet: at a halfway point only the
even mantissa is rounded to.  So no two values have shortest decimals of one number.
-/

set_option autoImplicit false

namespace MapStyle

namespace Binary

def value (x : Binary) : ℚ := x.mantissa * 2 ^ x.exponent

/-- The middle between a value and its lower neighbour. -/
def low (x : Binary) : ℚ :=
  (4 * x.mantissa - if x.narrowBelow then 1 else 2) * 2 ^ (x.exponent - 2)

/-- The middle between a value and its upper neighbour. -/
def high (x : Binary) : ℚ := (4 * x.mantissa + 2) * 2 ^ (x.exponent - 2)

/-- A number is rounded to a value: halfway points to even mantissas. -/
def RoundsTo (r : ℚ) (x : Binary) : Prop :=
  (x.low < r ∨ x.mantissa % 2 = 0 ∧ r = x.low) ∧ (r < x.high ∨ x.mantissa % 2 = 0 ∧ r = x.high)

theorem zpow_split {b : ℚ} (nonzero : b ≠ 0) (i : Int) :
    b ^ i * b ^ (-i).toNat = b ^ i.toNat := by
  rw [← zpow_natCast, ← zpow_natCast, ← zpow_add₀ nonzero]
  congr 1
  omega

theorem compareScaled_eq (a : Nat) (i : Int) (b : Nat) (j : Int) :
    compareScaled a i b j = cmp ((a : ℚ) * 10 ^ i) ((b : ℚ) * 2 ^ j) := by
  have positive : (0 : ℚ) < 10 ^ (-i).toNat * 2 ^ (-j).toNat := by positivity
  have left : (a : ℚ) * 10 ^ i * (10 ^ (-i).toNat * 2 ^ (-j).toNat) =
      ((a * Nat.pow 10 i.toNat * Nat.pow 2 (-j).toNat : Nat) : ℚ) := by
    have tens := zpow_split (b := 10) (by norm_num) i
    rw [Nat.pow_eq, Nat.pow_eq]
    push_cast
    calc (a : ℚ) * 10 ^ i * (10 ^ (-i).toNat * 2 ^ (-j).toNat)
        = a * (10 ^ i * 10 ^ (-i).toNat) * 2 ^ (-j).toNat := by ring
      _ = a * 10 ^ i.toNat * 2 ^ (-j).toNat := by rw [tens]
  have right : (b : ℚ) * 2 ^ j * (10 ^ (-i).toNat * 2 ^ (-j).toNat) =
      ((b * Nat.pow 2 j.toNat * Nat.pow 10 (-i).toNat : Nat) : ℚ) := by
    have twos := zpow_split (b := 2) (by norm_num) j
    rw [Nat.pow_eq, Nat.pow_eq]
    push_cast
    calc (b : ℚ) * 2 ^ j * (10 ^ (-i).toNat * 2 ^ (-j).toNat)
        = b * (2 ^ j * 2 ^ (-j).toNat) * 10 ^ (-i).toNat := by ring
      _ = b * 2 ^ j.toNat * 10 ^ (-i).toNat := by rw [twos]
  rw [compareScaled, ← cmp_mul_pos_right positive, left, right, ← cmp_eq_compare]
  exact (Nat.strictMono_cast.cmp_map_eq _ _).symm

section

variable {a b : Nat} {i j : Int}

theorem compareScaled_eq_lt :
    compareScaled a i b j = .lt ↔ (a : ℚ) * 10 ^ i < (b : ℚ) * 2 ^ j := by
  rw [compareScaled_eq, cmp_eq_lt_iff]

theorem compareScaled_eq_eq :
    compareScaled a i b j = .eq ↔ (a : ℚ) * 10 ^ i = (b : ℚ) * 2 ^ j := by
  rw [compareScaled_eq, cmp_eq_eq_iff]

theorem compareScaled_eq_gt :
    compareScaled a i b j = .gt ↔ (b : ℚ) * 2 ^ j < (a : ℚ) * 10 ^ i := by
  rw [compareScaled_eq, cmp_eq_gt_iff]

end

variable {x y : Binary}

theorem readsBack_iff (positive : 0 < x.mantissa) (d : Decimal) :
    x.readsBack d = true ↔ RoundsTo d.value x := by
  have low : ((if x.narrowBelow then 4 * x.mantissa - 1 else 4 * x.mantissa - 2 : Nat) : ℚ) *
      2 ^ (x.exponent - 2) = x.low := by
    rw [Binary.low]
    split
    · rw [Nat.cast_sub (by omega)]
      push_cast
      rfl
    · rw [Nat.cast_sub (by omega)]
      push_cast
      rfl
  have high : ((4 * x.mantissa + 2 : Nat) : ℚ) * 2 ^ (x.exponent - 2) = x.high := by
    rw [Binary.high]
    push_cast
    rfl
  simp only [readsBack, compareScaled_eq_lt, compareScaled_eq_eq, compareScaled_eq_gt, low, high,
    Bool.and_eq_true, Bool.or_eq_true, decide_eq_true_eq, RoundsTo, Decimal.value]

/-! ## The shortest decimal reads back -/

theorem low_lt_value (x : Binary) : x.low < x.value := by
  have power : (2 : ℚ) ^ x.exponent = 2 ^ (x.exponent - 2) * 4 := by
    rw [zpow_sub₀ (by norm_num)]
    norm_num
  have positive : (0 : ℚ) < 2 ^ (x.exponent - 2) := by positivity
  rw [low, value, power]
  split <;> nlinarith

theorem value_lt_high (x : Binary) : x.value < x.high := by
  have power : (2 : ℚ) ^ x.exponent = 2 ^ (x.exponent - 2) * 4 := by
    rw [zpow_sub₀ (by norm_num)]
    norm_num
  have positive : (0 : ℚ) < 2 ^ (x.exponent - 2) := by positivity
  rw [high, value, power]
  nlinarith

theorem low_pos (positive : 0 < x.mantissa) : 0 < x.low := by
  have least : (1 : ℚ) ≤ x.mantissa := by exact_mod_cast positive
  rw [low]
  apply mul_pos
  · split <;> linarith
  · positivity

theorem value_exact (x : Binary) : x.exact.value = x.value := by
  rw [exact, Decimal.value, value, Nat.pow_eq, Nat.pow_eq]
  by_cases whole : 0 ≤ x.exponent
  · obtain ⟨n, scale⟩ := Int.eq_ofNat_of_zero_le whole
    rw [min_eq_right whole, scale]
    simp
  · obtain ⟨n, scale⟩ := Int.eq_ofNat_of_zero_le (by omega : 0 ≤ -x.exponent)
    have negative : x.exponent = -n := by omega
    have powers : (10 : ℚ) ^ n = 5 ^ n * 2 ^ n := by
      rw [← mul_pow]
      norm_num
    have fives : (5 : ℚ) ^ n ≠ 0 := by positivity
    rw [min_eq_left (by omega), negative, zpow_neg, zpow_neg, zpow_natCast, zpow_natCast, powers]
    simp only [neg_neg, Int.toNat_neg_natCast, Int.toNat_natCast, pow_zero, mul_one]
    push_cast
    rw [mul_inv, mul_assoc, ← mul_assoc (5 ^ n), mul_inv_cancel₀ fives, one_mul]

theorem value_strip (steps : Nat) (d : Decimal) : (d.strip steps).value = d.value := by
  induction steps generalizing d with
  | zero => rfl
  | succ steps ih =>
    rw [Decimal.strip]
    split
    · rename_i trailing
      have digits : (d.digits : ℚ) = (d.digits / 10 : Nat) * 10 := by
        exact_mod_cast (Nat.div_mul_cancel (Nat.dvd_of_mod_eq_zero trailing)).symm
      rw [ih, Decimal.value, Decimal.value, digits, zpow_add₀ (by norm_num), zpow_one]
      ring
    · rfl

theorem readsBack_of_onGrid? {tie : Tie} {e : Int} {d : Decimal}
    (found : x.onGrid? tie e = some d) : x.readsBack d = true := by
  simp only [onGrid?] at found
  cases below : x.readsBack ⟨x.floorAt e, e⟩ <;>
    cases above : x.readsBack ⟨x.floorAt e + 1, e⟩ <;> simp only [below, above] at found
  · cases found
  · obtain rfl := Option.some.inj found
    exact above
  · obtain rfl := Option.some.inj found
    exact below
  · have neighbour : d = ⟨x.floorAt e, e⟩ ∨ d = ⟨x.floorAt e + 1, e⟩ := by
      grind
    rcases neighbour with rfl | rfl
    · exact below
    · exact above

theorem readsBack_of_search {tie : Tie} {steps : Nat} {e : Int} {d : Decimal}
    (found : x.search tie steps e = some d) : x.readsBack d = true := by
  induction steps generalizing e with
  | zero => cases found
  | succ steps ih =>
    unfold search at found
    split at found
    · rename_i onGrid
      obtain rfl := Option.some.inj found
      exact readsBack_of_onGrid? onGrid
    · exact ih found

theorem shortest_roundsTo (positive : 0 < x.mantissa) (tie : Tie) :
    RoundsTo (x.shortest tie).value x := by
  rw [shortest, if_neg (Nat.ne_of_gt positive), value_strip]
  cases found : x.search tie 18 (x.scale - 1) with
  | none =>
    rw [Option.getD_none, value_exact]
    exact ⟨Or.inl x.low_lt_value, Or.inl x.value_lt_high⟩
  | some d => exact (readsBack_iff positive d).mp (readsBack_of_search found)

theorem shortest_value_pos (positive : 0 < x.mantissa) (tie : Tie) :
    0 < (x.shortest tie).value := by
  have above := low_pos positive
  rcases (shortest_roundsTo positive tie).1 with lt | ⟨_, same⟩
  · exact above.trans lt
  · rwa [same]

theorem shortest_zero (zero : x.mantissa = 0) (tie : Tie) : x.shortest tie = Decimal.zero :=
  if_pos zero

theorem shortest_value_nonneg (x : Binary) (tie : Tie) : 0 ≤ (x.shortest tie).value := by
  rw [Decimal.value]
  positivity

/-! ## One value for each interval -/

/-- What a pattern of 64 bits gives: mantissas of 53 bits, and shorter ones at the least exponent
only; the lower neighbour is nearer below the least mantissa of a greater exponent. -/
structure Canonical (x : Binary) : Prop where
  least : -1074 ≤ x.exponent
  bounded : x.mantissa < 2 ^ 53
  full : -1074 < x.exponent → 2 ^ 52 ≤ x.mantissa
  narrow : x.narrowBelow = true ↔ x.mantissa = 2 ^ 52 ∧ -1074 < x.exponent

/-- The interval of a value ends before that of the next begins, or where it begins with one of the
two mantissas odd. -/
theorem high_le_low (canonicalX : x.Canonical) (canonicalY : y.Canonical)
    (before : x.exponent < y.exponent ∨ x.exponent = y.exponent ∧ x.mantissa < y.mantissa) :
    x.high < y.low ∨ x.high = y.low ∧ (x.mantissa % 2 = 1 ∨ y.mantissa % 2 = 1) := by
  have positive : (0 : ℚ) < 2 ^ (x.exponent - 2) := by positivity
  rcases before with further | ⟨level, further⟩
  · -- `y` has a full mantissa, so it begins at or after `2 ^ 55 - 2` quarters of the steps of `x`,
    -- which is where the greatest mantissa of `x`, an odd one, ends
    have power : (2 : ℚ) ^ (y.exponent - 2) =
        2 ^ (y.exponent - x.exponent) * 2 ^ (x.exponent - 2) := by
      rw [← zpow_add₀ (by norm_num)]
      congr 1
      omega
    have doubled : (2 : ℚ) ≤ 2 ^ (y.exponent - x.exponent) := by
      have monotone := zpow_le_zpow_right₀ (a := (2 : ℚ)) (by norm_num)
        (by omega : 1 ≤ y.exponent - x.exponent)
      rwa [zpow_one] at monotone
    have full := canonicalY.full (by have := canonicalX.least; omega)
    have above : (2 : ℚ) ^ 54 - 1 ≤ 4 * y.mantissa - if y.narrowBelow then 1 else 2 := by
      split
      · have : (2 : ℚ) ^ 52 ≤ y.mantissa := by exact_mod_cast full
        linarith
      · rename_i wide
        have more : 2 ^ 52 + 1 ≤ y.mantissa := by
          have := canonicalX.least
          have := mt canonicalY.narrow.mpr wide
          omega
        have : (2 : ℚ) ^ 52 + 1 ≤ y.mantissa := by exact_mod_cast more
        linarith
    have next : (2 ^ 55 - 2) * (2 : ℚ) ^ (x.exponent - 2) ≤ y.low := by
      rw [low, power, ← mul_assoc]
      apply mul_le_mul_of_nonneg_right _ positive.le
      nlinarith
    by_cases last : x.mantissa = 2 ^ 53 - 1
    · have odd : x.mantissa % 2 = 1 := by omega
      have reaches : x.high ≤ y.low := by
        refine le_trans (le_of_eq ?_) next
        rw [high, last]
        norm_num
      exact reaches.lt_or_eq.imp_right fun same => ⟨same, Or.inl odd⟩
    · have fewer : x.mantissa + 2 ≤ 2 ^ 53 := by
        have := canonicalX.bounded
        omega
      have bound : (x.mantissa : ℚ) + 2 ≤ 2 ^ 53 := by exact_mod_cast fewer
      left
      refine lt_of_lt_of_le ?_ next
      rw [high]
      exact mul_lt_mul_of_pos_right (by linarith) positive
  · have wide : y.narrowBelow = false := by
      rw [Bool.eq_false_iff]
      intro narrow
      obtain ⟨least, above⟩ := canonicalY.narrow.mp narrow
      have := canonicalX.full (level ▸ above)
      omega
    rw [high, low, wide, ← level]
    by_cases adjacent : x.mantissa + 1 = y.mantissa
    · right
      constructor
      · rw [← adjacent]
        push_cast
        ring
      · omega
    · have fewer : x.mantissa + 2 ≤ y.mantissa := by omega
      have bound : (x.mantissa : ℚ) + 2 ≤ y.mantissa := by exact_mod_cast fewer
      left
      apply mul_lt_mul_of_pos_right _ positive
      simp only [Bool.false_eq_true, if_false]
      linarith

theorem not_before_of_roundsTo (canonicalX : x.Canonical) (canonicalY : y.Canonical) {r : ℚ}
    (toX : RoundsTo r x) (toY : RoundsTo r y) :
    ¬ (x.exponent < y.exponent ∨ x.exponent = y.exponent ∧ x.mantissa < y.mantissa) := by
  intro before
  have upper : r ≤ x.high := toX.2.elim le_of_lt fun same => same.2.le
  have lower : y.low ≤ r := toY.1.elim le_of_lt fun same => same.2.ge
  rcases high_le_low canonicalX canonicalY before with apart | ⟨touching, odd⟩
  · exact absurd (apart.trans_le (lower.trans upper)) (lt_irrefl _)
  · have evenX : x.mantissa % 2 = 0 := by
      rcases toX.2 with lt | ⟨even, _⟩
      · exact absurd (lt.trans_le (touching.le.trans lower)) (lt_irrefl _)
      · exact even
    have evenY : y.mantissa % 2 = 0 := by
      rcases toY.1 with lt | ⟨even, _⟩
      · exact absurd (lt.trans_le (upper.trans touching.le)) (lt_irrefl _)
      · exact even
    omega

theorem eq_of_roundsTo (canonicalX : x.Canonical) (canonicalY : y.Canonical) {r : ℚ}
    (toX : RoundsTo r x) (toY : RoundsTo r y) : x = y := by
  have notBefore := not_before_of_roundsTo canonicalX canonicalY toX toY
  have notAfter := not_before_of_roundsTo canonicalY canonicalX toY toX
  have exponents : x.exponent = y.exponent := by omega
  have mantissas : x.mantissa = y.mantissa := by omega
  have narrows : x.narrowBelow = y.narrowBelow := by
    rw [Bool.eq_iff_iff, canonicalX.narrow, canonicalY.narrow, exponents, mantissas]
  cases x
  cases y
  simp_all

/-- Values with shortest decimals of one number are one. -/
theorem eq_of_shortest (canonicalX : x.Canonical) (canonicalY : y.Canonical) {tie : Tie}
    (same : (x.shortest tie).value = (y.shortest tie).value) :
    x.mantissa = 0 ∧ y.mantissa = 0 ∨ x = y := by
  have zero : Decimal.zero.value = 0 := by
    simp [Decimal.zero, Decimal.value]
  by_cases zeroX : x.mantissa = 0 <;> by_cases zeroY : y.mantissa = 0
  · exact Or.inl ⟨zeroX, zeroY⟩
  · have positive := shortest_value_pos (Nat.pos_of_ne_zero zeroY) tie
    rw [← same, shortest_zero zeroX, zero] at positive
    exact absurd positive (lt_irrefl 0)
  · have positive := shortest_value_pos (Nat.pos_of_ne_zero zeroX) tie
    rw [same, shortest_zero zeroY, zero] at positive
    exact absurd positive (lt_irrefl 0)
  · right
    have toX := shortest_roundsTo (Nat.pos_of_ne_zero zeroX) tie
    have toY := shortest_roundsTo (Nat.pos_of_ne_zero zeroY) tie
    exact eq_of_roundsTo canonicalX canonicalY (same ▸ toX) toY

end Binary

end MapStyle
