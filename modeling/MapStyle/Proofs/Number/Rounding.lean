import MapStyle.Proofs.Number.Reading

/-!
# Results that need no rounding

Values are packed into patterns after each operation.  A value that fits is packed without loss, and
an operation of which the exact result fits has that result.  Whole numbers of at most 53 binary
digits fit.
-/

set_option autoImplicit false

namespace MapStyle

namespace FloatReading

open Float.Model (UnpackedFloat Format totalExponent)
open Float.Model.UnpackedFloat (Sign ExtendedMantissa roundWithAccuracy packComponents
  unpackExponent_packComponents unpackMantissa_packComponents)
open FloatBits FloatValue

/-! ## Exact rounding -/

section Rounding

variable {m : Nat} {e : Int}

theorem log2_mul_two_pow (positive : 0 < m) (k : Nat) : (m * 2 ^ k).log2 = m.log2 + k := by
  induction k with
  | zero => simp
  | succ k ih =>
    have nonzero : m * 2 ^ k ≠ 0 := Nat.ne_of_gt (Nat.mul_pos positive (Nat.two_pow_pos k))
    rw [Nat.pow_succ, ← Nat.mul_assoc, Nat.mul_comm _ 2, Nat.log2_two_mul nonzero, ih,
      Nat.add_assoc]

theorem totalExponent_scaled (positive : 0 < m) (e : Int) (k : Nat) :
    totalExponent (m * 2 ^ k) (e - k) = totalExponent m e := by
  unfold totalExponent
  rw [log2_mul_two_pow positive]
  omega

theorem exact_shiftRight (m k : Nat) :
    (⟨m * 2 ^ k, false, false⟩ : ExtendedMantissa) >>> k = ⟨m, false, false⟩ := by
  induction k generalizing m with
  | zero =>
    rw [Nat.pow_zero, Nat.mul_one]
    rfl
  | succ k ih =>
    have split : m * 2 ^ (k + 1) = m * 2 * 2 ^ k := by
      rw [Nat.pow_succ]
      ring
    rw [split]
    change ((⟨m * 2 * 2 ^ k, false, false⟩ : ExtendedMantissa) >>> k).shiftRightOne = _
    rw [ih]
    simp [ExtendedMantissa.shiftRightOne]

theorem shiftToTargetExponent_exact (fits : Fits m e) (positive : 0 < m) (k : Nat) :
    UnpackedFloat.shiftToTargetExponent Format.binary64 (m * 2 ^ k) (e - k) .exact =
      (⟨m, false, false⟩, e) := by
  have places : (e - (e - k)).toNat = k := by omega
  unfold UnpackedFloat.shiftToTargetExponent
  rw [totalExponent_scaled positive, fits.targetExponent_eq positive]
  unfold UnpackedFloat.shiftToExponent
  dsimp only
  rw [places]
  exact Prod.ext (exact_shiftRight m k) (Int.sub_add_cancel e k)

theorem roundWithAccuracy_exact (s : Sign) (fits : Fits m e) (positive : 0 < m) (k : Nat) :
    roundWithAccuracy Format.binary64 s (m * 2 ^ k) (e - k) .exact = .finite s m e positive := by
  have again := shiftToTargetExponent_exact fits positive 0
  rw [Nat.pow_zero, Nat.mul_one, Nat.cast_zero, Int.sub_zero] at again
  unfold roundWithAccuracy
  rw [shiftToTargetExponent_exact fits positive]
  change (let (last, exponent) := UnpackedFloat.shiftToTargetExponent Format.binary64 m e .exact
    if h : last.mantissa = 0 then UnpackedFloat.zero s
    else .finite s last.mantissa exponent (Nat.pos_of_ne_zero h)) = _
  rw [again]
  exact dif_neg (Nat.ne_of_gt positive)

theorem eq_mul_two_pow {a b k : Nat} (value : (a : ℚ) * 2 ^ e = b * 2 ^ (e + k)) :
    a = b * 2 ^ k := by
  have power : (2 : ℚ) ^ e ≠ 0 := zpow_ne_zero e (by norm_num)
  rw [zpow_add₀ (by norm_num), zpow_natCast] at value
  have same : (a : ℚ) = b * 2 ^ k := mul_right_cancel₀ power (value.trans (by ring))
  exact_mod_cast same

theorem exists_places {m' : Nat} {e' : Int} (value : (m' : ℚ) * 2 ^ e' = m * 2 ^ e) :
    (∃ k : Nat, e' = e - k ∧ m' = m * 2 ^ k) ∨ ∃ k : Nat, e' = e + k ∧ m = m' * 2 ^ k := by
  rcases Int.le_total e' e with lower | higher
  · obtain ⟨k, difference⟩ := Int.eq_ofNat_of_zero_le (Int.sub_nonneg.mpr lower)
    obtain rfl : e = e' + k := by omega
    exact Or.inl ⟨k, by omega, eq_mul_two_pow value⟩
  · obtain ⟨k, difference⟩ := Int.eq_ofNat_of_zero_le (Int.sub_nonneg.mpr higher)
    obtain rfl : e' = e + k := by omega
    exact Or.inr ⟨k, rfl, eq_mul_two_pow value.symm⟩

/-- Rounding keeps a value that fits, whatever mantissa and exponent it is given by. -/
theorem round_exact (s : Sign) (fits : Fits m e) (positive : 0 < m) {m' : Nat} {e' : Int}
    (value : (m' : ℚ) * 2 ^ e' = m * 2 ^ e) :
    UnpackedFloat.round Format.binary64 s m' e' = .finite s m e positive := by
  unfold UnpackedFloat.round UnpackedFloat.decreaseExponent
  dsimp only
  rcases exists_places value with ⟨k, rfl, rfl⟩ | ⟨k, rfl, rfl⟩
  · have none : (e - k - e).toNat = 0 := by omega
    rw [totalExponent_scaled positive, fits.targetExponent_eq positive, none, Nat.shiftLeft_zero,
      Nat.cast_zero, Int.sub_zero]
    exact roundWithAccuracy_exact s fits positive k
  · have positive' : 0 < m' := Nat.pos_of_mul_pos_right positive
    have total := totalExponent_scaled positive' (e + k) k
    rw [Int.add_sub_cancel] at total
    have places : (e + k - e).toNat = k := by omega
    have exact := roundWithAccuracy_exact s fits positive 0
    rw [Nat.pow_zero, Nat.mul_one, Nat.cast_zero, Int.sub_zero] at exact
    rw [← total, fits.targetExponent_eq positive, places, Nat.shiftLeft_eq, Int.add_sub_cancel]
    exact exact

end Rounding

/-! ## Operations of which the result fits -/

/-- A value that fits stands for a rational. -/
inductive StandsFor : UnpackedFloat → ℚ → Prop
  | zero (s : Sign) : StandsFor (.zero s) 0
  | finite (s : Sign) {m : Nat} {e : Int} (positive : 0 < m) : Fits m e →
    StandsFor (.finite s m e positive) (scaled s m e)

/-- Whether some value that fits stands for a rational. -/
def Representable (q : ℚ) : Prop := ∃ u, StandsFor u q

section Results

variable {u v : UnpackedFloat} {p q : ℚ}

theorem StandsFor.reading_pack (stands : StandsFor u q) :
    reading (.ofModel (.pack u)) = .exact q := by
  change read (Float.Model.pack u).unpack = _
  cases stands with
  | zero s =>
    rw [unpack_pack (.zero s)]
    rfl
  | finite s positive fits =>
    rw [unpack_pack (.finite s positive fits)]
    rfl

theorem standsFor_of_reading {x : Float} (exact : reading x = .exact q) :
    StandsFor x.toModel.unpack q := by
  have shape := shape_unpack x
  unfold reading at exact
  generalize x.toModel.unpack = u at shape exact
  cases shape with
  | notANumber => cases exact
  | infinity => cases exact
  | zero s =>
    cases exact
    exact .zero s
  | finite s positive fits =>
    cases exact
    exact .finite s positive fits

theorem scaled_neg (s : Sign) (m : Nat) (e : Int) : scaled (-s) m e = -scaled s m e := by
  cases s with
  | positive => rw [scaled_positive, ← scaled_negative]; rfl
  | negative => rw [scaled_negative, neg_neg, ← scaled_positive]; rfl

theorem StandsFor.neg (stands : StandsFor u q) : StandsFor u.neg (-q) := by
  cases stands with
  | zero s =>
    rw [neg_zero]
    exact .zero (-s)
  | finite s positive fits =>
    rw [← scaled_neg]
    exact .finite (-s) positive fits

theorem scaled_decreased (s : Sign) (m : Nat) {e t : Int} (lower : t ≤ e) :
    ((s.apply (m <<< (e - t).toNat : Nat) : Int) : ℚ) * 2 ^ t = scaled s m e := by
  obtain ⟨k, difference⟩ := Int.eq_ofNat_of_zero_le (Int.sub_nonneg.mpr lower)
  obtain rfl : e = t + k := by omega
  have shifted : ((m <<< k : Nat) : ℚ) * 2 ^ t = m * 2 ^ (t + k) := by
    rw [Nat.shiftLeft_eq, zpow_add₀ (by norm_num), zpow_natCast]
    push_cast
    ring
  rw [difference, Int.toNat_natCast]
  cases s with
  | positive =>
    rw [scaled_positive, ← shifted]
    rfl
  | negative =>
    rw [scaled_negative, ← shifted, Sign.apply, Int.cast_neg, Int.cast_natCast, neg_mul]

theorem normalize_standsFor {m e : Int} (representable : Representable q)
    (value : (m : ℚ) * 2 ^ e = q) (s : Sign) :
    StandsFor (UnpackedFloat.normalize Format.binary64 m e s) q := by
  have power : (0 : ℚ) < 2 ^ e := by positivity
  obtain ⟨u, stands⟩ := representable
  unfold UnpackedFloat.normalize
  cases stands with
  | zero =>
    obtain rfl : m = 0 := by
      have zero := (mul_eq_zero.mp value).resolve_right (ne_of_gt power)
      exact_mod_cast zero
    exact .zero s
  | @finite s' m' e' positive fits =>
    have above := magnitude_pos positive e'
    cases s' with
    | positive =>
      rw [scaled_positive] at value
      rw [← value] at above
      have sign : 0 < m := by exact_mod_cast (mul_pos_iff_of_pos_right power).mp above
      obtain ⟨n, rfl⟩ := Int.eq_ofNat_of_zero_le (Int.le_of_lt sign)
      rw [Int.compare_eq_gt.mpr sign]
      dsimp only
      rw [Int.toNat_natCast, round_exact .positive fits positive value]
      exact .finite .positive positive fits
    | negative =>
      rw [scaled_negative] at value
      have value : ((-m : Int) : ℚ) * 2 ^ e = m' * 2 ^ e' := by
        rw [Int.cast_neg, neg_mul, value, neg_neg]
      rw [← value] at above
      have sign : 0 < -m := by exact_mod_cast (mul_pos_iff_of_pos_right power).mp above
      rw [Int.compare_eq_lt.mpr (Int.neg_pos.mp sign)]
      dsimp only
      obtain ⟨n, natural⟩ := Int.eq_ofNat_of_zero_le (Int.le_of_lt sign)
      rw [natural, Int.cast_natCast] at value
      rw [natural, Int.toNat_natCast, round_exact .negative fits positive value]
      exact .finite .negative positive fits

theorem StandsFor.add (first : StandsFor u p) (second : StandsFor v q)
    (sum : Representable (p + q)) : StandsFor (UnpackedFloat.add Format.binary64 u v) (p + q) := by
  cases first with
  | zero s =>
    cases second with
    | zero s' =>
      rw [add_zero]
      unfold UnpackedFloat.add
      dsimp only
      split
      · exact .zero s
      · exact .zero .positive
    | finite s' positive' fits' =>
      rw [zero_add]
      exact .finite s' positive' fits'
  | @finite s m e positive fits =>
    cases second with
    | zero s' =>
      rw [add_zero]
      exact .finite s positive fits
    | @finite s' m' e' positive' fits' =>
      apply normalize_standsFor sum
      rw [Int.cast_add, add_mul, scaled_decreased s m (Int.min_le_left e e'),
        scaled_decreased s' m' (Int.min_le_right e e')]

theorem StandsFor.mul_one (stands : StandsFor u q) {positive : 0 < 2 ^ 52} :
    StandsFor (UnpackedFloat.mul Format.binary64 u (.finite .positive (2 ^ 52) (-52) positive))
      q := by
  cases stands with
  | zero s => exact .zero (s * .positive)
  | @finite s m e positive fits =>
    have same : s * .positive = s := by cases s <;> rfl
    have exact := roundWithAccuracy_exact s fits positive 52
    change StandsFor (roundWithAccuracy Format.binary64 (s * .positive) (m * 2 ^ 52)
      (e - (52 : Nat)) .exact) _
    rw [same, exact]
    exact .finite s positive fits

theorem representable_natural {n : Nat} (few : n < 2 ^ 53) : Representable n := by
  by_cases zero : n = 0
  · subst zero
    exact ⟨_, by exact_mod_cast StandsFor.zero .positive⟩
  · have positive : 0 < n := Nat.pos_of_ne_zero zero
    have narrow : n.log2 < 53 := (Nat.log2_lt zero).mpr few
    have lower := Nat.log2_self_le zero
    have upper := Nat.lt_log2_self (n := n)
    have scale : 2 ^ n.log2 * 2 ^ (52 - n.log2) = 2 ^ 52 := by
      rw [← Nat.pow_add]
      congr 1
      omega
    have fits : Fits (n * 2 ^ (52 - n.log2)) (0 - (52 - n.log2 : Nat)) := by
      refine ⟨by omega, by omega, ?_, fun _ => ?_⟩
      · calc n * 2 ^ (52 - n.log2) < 2 ^ (n.log2 + 1) * 2 ^ (52 - n.log2) :=
              Nat.mul_lt_mul_of_pos_right upper (Nat.two_pow_pos _)
          _ = 2 ^ 52 * 2 := by rw [Nat.pow_succ, Nat.mul_right_comm, scale]
      · rw [← scale]
        exact Nat.mul_le_mul_right _ lower
    have value := StandsFor.finite .positive (Nat.mul_pos positive (Nat.two_pow_pos _)) fits
    rw [scaled_positive, zpow_sub₀ (by norm_num), zpow_natCast] at value
    push_cast at value
    rw [mul_one_div, mul_div_cancel_right₀ _ (by positivity)] at value
    exact ⟨_, value⟩

theorem Representable.neg (representable : Representable q) : Representable (-q) := by
  obtain ⟨u, stands⟩ := representable
  exact ⟨u.neg, stands.neg⟩

end Results

/-! ## Negative results -/

inductive Negative : UnpackedFloat → Prop
  | infinity : Negative (.infinity .negative)
  | zero : Negative (.zero .negative)
  | finite {m : Nat} {e : Int} (positive : 0 < m) : Negative (.finite .negative m e positive)

theorem Negative.read_le {u : UnpackedFloat} (negative : Negative u) : (read u).Le (.exact 0) := by
  cases negative with
  | infinity => simp [read]
  | zero => simp [read]
  | @finite m e positive =>
    have above := magnitude_pos positive e
    simp [read, scaled_negative, le_of_lt above]

/-- A pattern with the sign bit is negative or stands for no number. -/
theorem negative_of_components {exponent : BitVec 11} {mantissa : BitVec 52}
    (number : UnpackedFloat.unpack Format.binary64
      (packComponents Format.binary64 .negative exponent mantissa) ≠ .notANumber) :
    Negative (UnpackedFloat.unpack Format.binary64
      (packComponents Format.binary64 .negative exponent mantissa)) := by
  unfold UnpackedFloat.unpack at *
  simp only [unpackExponent_packComponents, unpackMantissa_packComponents, sign_packComponents] at *
  split
  · split
    · exact .infinity
    · rename_i top rest
      rw [if_pos top, if_neg rest] at number
      exact absurd rfl number
  split
  · split
    · exact .zero
    · exact .finite _
  · exact .finite _

theorem Negative.exists_components {u : UnpackedFloat} (negative : Negative u) :
    ∃ exponent mantissa, UnpackedFloat.pack Format.binary64 u =
      packComponents Format.binary64 .negative exponent mantissa := by
  cases negative with
  | infinity => exact ⟨_, _, rfl⟩
  | zero => exact ⟨_, _, rfl⟩
  | finite positive =>
    unfold UnpackedFloat.pack
    dsimp only
    split
    · exact ⟨_, _, rfl⟩
    split
    · exact ⟨_, _, rfl⟩
    · exact ⟨_, _, rfl⟩

/-- The sign outlives packing, also where the magnitude becomes infinite. -/
theorem Negative.unpack_pack {u : UnpackedFloat} (negative : Negative u) :
    Negative (Float.Model.pack u).unpack := by
  have number : (Float.Model.pack u).unpack ≠ .notANumber := by
    apply unpack_pack_ne
    rintro rfl
    cases negative
  obtain ⟨exponent, mantissa, packed⟩ := negative.exists_components
  change UnpackedFloat.unpack Format.binary64 (UnpackedFloat.pack Format.binary64 u) ≠ _ at number
  change Negative (UnpackedFloat.unpack Format.binary64 (UnpackedFloat.pack Format.binary64 u))
  rw [packed] at number ⊢
  exact negative_of_components number

theorem Negative.reading_le {u : UnpackedFloat} (negative : Negative u) :
    (reading (.ofModel (.pack u))).Le (.exact 0) := negative.unpack_pack.read_le

theorem negative_normalize {m e : Int} (below : m < 0) :
    Negative (UnpackedFloat.normalize Format.binary64 m e .positive) := by
  unfold UnpackedFloat.normalize
  rw [Int.compare_eq_lt.mpr below]
  change Negative (if h : _ then UnpackedFloat.zero .negative else .finite .negative _ _ _)
  split
  · exact .zero
  · exact .finite _

/-- A sum below zero is negative, whatever it is rounded to. -/
theorem StandsFor.negative_add {u v : UnpackedFloat} {p q : ℚ} (first : StandsFor u p)
    (second : StandsFor v q) (nonneg : 0 ≤ p) (below : p + q < 0) :
    Negative (UnpackedFloat.add Format.binary64 u v) := by
  cases second with
  | zero => linarith
  | @finite s' m' e' positive' fits' =>
    cases first with
    | zero s =>
      cases s' with
      | positive =>
        have above := magnitude_pos positive' e'
        rw [scaled_positive] at below
        linarith
      | negative => exact .finite positive'
    | @finite s m e positive fits =>
      apply negative_normalize
      have power : (0 : ℚ) < 2 ^ (min e e') := by positivity
      rw [← scaled_decreased s m (Int.min_le_left e e'),
        ← scaled_decreased s' m' (Int.min_le_right e e'), ← add_mul, ← Int.cast_add] at below
      exact_mod_cast neg_of_mul_neg_left below (le_of_lt power)

section Values

variable {x y : Float} {p q : ℚ}

theorem reading_neg (exact : reading x = .exact q) : reading (-x) = .exact (-q) :=
  (standsFor_of_reading exact).neg.reading_pack

theorem reading_add (first : reading x = .exact p) (second : reading y = .exact q)
    (sum : Representable (p + q)) : reading (x + y) = .exact (p + q) :=
  ((standsFor_of_reading first).add (standsFor_of_reading second) sum).reading_pack

theorem reading_add_infinite {s : Sign} (first : reading x = .exact p)
    (second : reading y = .infinite s) : reading (x + y) = .infinite s := by
  have stands := standsFor_of_reading first
  have infinite : y.toModel.unpack = .infinity s := by
    unfold reading at second
    generalize y.toModel.unpack = v at second
    cases v with
    | infinity =>
      cases second
      rfl
    | notANumber => cases second
    | zero => cases second
    | finite => cases second
  change read (Float.Model.pack (UnpackedFloat.add Format.binary64 x.toModel.unpack
    y.toModel.unpack)).unpack = _
  rw [infinite]
  have sum : UnpackedFloat.add Format.binary64 x.toModel.unpack (.infinity s) = .infinity s := by
    generalize x.toModel.unpack = u at stands
    cases stands with
    | zero => rfl
    | finite => rfl
  rw [sum, unpack_pack (.infinity s)]
  rfl

theorem reading_add_le (first : reading x = .exact p) (second : reading y = .exact q)
    (nonneg : 0 ≤ p) (below : p + q < 0) : (reading (x + y)).Le (.exact 0) :=
  ((standsFor_of_reading first).negative_add (standsFor_of_reading second) nonneg below).reading_le

theorem reading_toFloat {n : Nat} (few : n < 2 ^ 53) : reading n.toUInt64.toFloat = .exact n := by
  have word : n.toUInt64.toNat = n := by
    rw [Nat.toUInt64_eq, UInt64.toNat_ofNat']
    omega
  change reading (.ofModel (.pack
    (UnpackedFloat.normalize Format.binary64 n.toUInt64.toNat 0 .positive))) = _
  rw [word]
  refine (normalize_standsFor (representable_natural few) ?_ .positive).reading_pack
  rw [Int.cast_natCast, zpow_zero, mul_one]

/-- Numerals of whole numbers of at most 53 binary digits name them. -/
theorem reading_ofInt {n : Nat} (few : n < 2 ^ 53) :
    reading (Scalar.ofInt n : Float) = .exact n := by
  by_cases zero : n = 0
  · subst zero
    rw [Nat.cast_zero]
    rfl
  have short : (Nat.toDigits 10 n).length ≤ 16 :=
    (Nat.length_toDigits_le_iff (by decide) (by decide)).mpr (by omega)
  have leading : Decimal.leadingExponent ⟨n, 0⟩ = ((Nat.toDigits 10 n).length : Int) - 1 := by
    rw [Decimal.leadingExponent, if_neg zero, Decimal.digitChars]
    dsimp only
    omega
  have value : (Scalar.ofInt n : Float) = n.toUInt64.toFloat * Float.ofBits 0x3FF0000000000000 := by
    change Numeral.toFloat (.finite (decide ((n : Int) < 0)) ⟨n, 0⟩) = _
    rw [Numeral.toFloat, if_neg (by simp), Decimal.toFloat, if_neg zero]
    dsimp only
    rw [leading, if_neg (by omega), if_neg (by omega), decide_eq_false (by decide),
      Float.ofScientific, dif_pos ⟨few, by decide⟩]
    rfl
  rw [value]
  exact (standsFor_of_reading (reading_toFloat few)).mul_one.reading_pack

end Values

end FloatReading

end MapStyle
