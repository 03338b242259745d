import MapStyle.Proofs.Number.Packing

/-!
# The values of numerals

A floating-point operation yields a value that is no number only where an operand is none, or for
the few pairs of zeros and infinities that have no result.  So a numeral names a number unless it is
the word for none.
-/

set_option autoImplicit false

namespace MapStyle

namespace FloatValue

open Float.Model (UnpackedFloat Format totalExponent)
open Float.Model.UnpackedFloat (Sign Accuracy ExtendedMantissa roundWithAccuracy
  shiftToTargetExponent packComponents unpackExponent_packComponents
  unpackMantissa_packComponents)
open FloatOrder FloatBits

/-- Values other than zeros and infinities: by them any number can be multiplied and divided. -/
inductive NonzeroFinite : UnpackedFloat → Prop
  | intro {s : Sign} {m : Nat} {e : Int} (positive : 0 < m) : NonzeroFinite (.finite s m e positive)

instance : DecidablePred NonzeroFinite
  | .finite _ _ _ positive => isTrue (.intro positive)
  | .zero _ => isFalse nofun
  | .infinity _ => isFalse nofun
  | .notANumber => isFalse nofun

/-! ## Results of operations -/

section Operations

variable {format : Format} {u v : UnpackedFloat}

theorem dite_ne {c : Prop} [Decidable c] {a : c → UnpackedFloat} {b : ¬ c → UnpackedFloat}
    (yes : ∀ h, a h ≠ .notANumber) (no : ∀ h, b h ≠ .notANumber) : dite c a b ≠ .notANumber := by
  by_cases h : c
  · rw [dif_pos h]
    exact yes h
  · rw [dif_neg h]
    exact no h

theorem ite_ne {c : Prop} [Decidable c] {a b : UnpackedFloat} (yes : a ≠ .notANumber)
    (no : b ≠ .notANumber) : (if c then a else b) ≠ .notANumber :=
  dite_ne (fun _ => yes) fun _ => no

theorem roundWithAccuracy_ne (s : Sign) (m : Nat) (e : Int) (a : Accuracy) :
    roundWithAccuracy format s m e a ≠ .notANumber := by
  unfold roundWithAccuracy
  exact dite_ne nofun nofun

theorem normalize_ne (m e : Int) (s : Sign) :
    UnpackedFloat.normalize format m e s ≠ .notANumber := by
  unfold UnpackedFloat.normalize
  split
  · exact roundWithAccuracy_ne _ _ _ _
  · nofun
  · exact roundWithAccuracy_ne _ _ _ _

theorem mul_ne (number : u ≠ .notANumber) (finite : NonzeroFinite v) :
    UnpackedFloat.mul format u v ≠ .notANumber := by
  cases finite
  cases u with
  | notANumber => contradiction
  | infinity => nofun
  | zero => nofun
  | finite => exact roundWithAccuracy_ne _ _ _ _

theorem div_ne (number : u ≠ .notANumber) (finite : NonzeroFinite v) :
    UnpackedFloat.div format u v ≠ .notANumber := by
  cases finite
  cases u with
  | notANumber => contradiction
  | infinity => nofun
  | zero => nofun
  | finite => exact roundWithAccuracy_ne _ _ _ _

theorem neg_ne (number : u ≠ .notANumber) : u.neg ≠ .notANumber := by
  cases u with
  | notANumber => contradiction
  | _ => nofun

theorem ofScientific_ne (m : Nat) (e : Int) :
    UnpackedFloat.ofScientific format m e ≠ .notANumber := by
  unfold UnpackedFloat.ofScientific
  refine dite_ne nofun fun _ => ?_
  refine ite_ne nofun (ite_ne nofun (ite_ne ?_ ?_))
  · exact mul_ne nofun (.intro _)
  · exact div_ne nofun (.intro _)

end Operations

/-! ## Patterns of results -/

theorem unpack_packComponents_ne {s : Sign} {exponent : BitVec 11} {mantissa : BitVec 52}
    (number : exponent ≠ -1#11 ∨ mantissa = 0#52) :
    UnpackedFloat.unpack Format.binary64 (packComponents Format.binary64 s exponent mantissa) ≠
      .notANumber := by
  unfold UnpackedFloat.unpack
  dsimp only
  rw [unpackExponent_packComponents]
  by_cases top : exponent = -1#11
  · rw [if_pos top]
    rcases number with below | none
    · exact absurd top below
    · rw [unpackMantissa_packComponents, if_pos none]
      nofun
  · rw [if_neg top]
    exact ite_ne (dite_ne nofun nofun) nofun

theorem unpack_pack_ne {u : UnpackedFloat} (number : u ≠ .notANumber) :
    (Float.Model.pack u).unpack ≠ .notANumber := by
  change UnpackedFloat.unpack Format.binary64 (UnpackedFloat.pack Format.binary64 u) ≠ .notANumber
  cases u with
  | notANumber => contradiction
  | infinity => exact unpack_packComponents_ne (Or.inr rfl)
  | zero => exact unpack_packComponents_ne (Or.inr rfl)
  | finite s m e positive =>
    by_cases inside : e ≤ 971
    · rw [pack_finite s positive inside]
      by_cases normal : m.log2 + 1 = Format.binary64.mantissaBits
      · rw [if_pos normal]
        refine unpack_packComponents_ne (Or.inl ?_)
        intro top
        have value : (e + 1023 + 52).toNat % 2048 = 2047 := congrArg BitVec.toNat top
        omega
      · rw [if_neg normal]
        exact unpack_packComponents_ne (Or.inl (by decide))
    · rw [pack_beyond s positive (by omega)]
      exact unpack_packComponents_ne (Or.inr rfl)

theorem finite_unpack_pack {s : Sign} {m : Nat} {e : Int} {positive : 0 < m} (digits : m.log2 = 52)
    (lower : -1074 ≤ e) (upper : e ≤ 971) :
    NonzeroFinite (Float.Model.pack (.finite s m e positive)).unpack := by
  obtain ⟨full, bounded⟩ := (Nat.log2_eq_iff (by omega)).mp digits
  have fits : Fits m e := ⟨lower, upper, bounded, fun _ => full⟩
  rw [unpack_pack (.finite s positive fits)]
  exact .intro positive

/-! ## Rounding -/

theorem mantissa_shiftRight (em : ExtendedMantissa) (k : Nat) :
    (em >>> k).mantissa = em.mantissa / 2 ^ k := by
  induction k with
  | zero => exact (Nat.div_one _).symm
  | succ k ih =>
    change (em >>> k).mantissa / 2 = _
    rw [ih, Nat.div_div_eq_div_mul, Nat.pow_succ]

theorem roundToNearestEven_bounds (m : Nat) (a : Accuracy) :
    m ≤ a.roundToNearestEven m ∧ a.roundToNearestEven m ≤ m + 1 := by
  cases a with
  | exact => exact ⟨Nat.le_refl m, Nat.le_succ m⟩
  | inexact side =>
    cases side with
    | lt => exact ⟨Nat.le_refl m, Nat.le_succ m⟩
    | gt => exact ⟨Nat.le_succ m, Nat.le_refl _⟩
    | eq =>
      change m ≤ m + m % 2 ∧ m + m % 2 ≤ m + 1
      omega

theorem leading_bounds {m : Nat} (wide : 52 ≤ m.log2) :
    2 ^ 52 ≤ m / 2 ^ (m.log2 - 52) ∧ m / 2 ^ (m.log2 - 52) < 2 ^ 53 := by
  have nonzero : m ≠ 0 := by
    intro zero
    subst zero
    exact absurd wide (by decide)
  constructor
  · rw [Nat.le_div_iff_mul_le (Nat.two_pow_pos _), ← Nat.pow_add, Nat.add_sub_cancel' wide]
    exact Nat.log2_self_le nonzero
  · have next : 53 + (m.log2 - 52) = m.log2 + 1 := by omega
    rw [Nat.div_lt_iff_lt_mul (Nat.two_pow_pos _), ← Nat.pow_add, next]
    exact Nat.lt_log2_self

theorem shiftToTargetExponent_eq {m : Nat} {e : Int} (wide : 52 ≤ m.log2) (least : -1074 ≤ e) :
    (shiftToTargetExponent Format.binary64 m e .exact).1.mantissa = m / 2 ^ (m.log2 - 52) ∧
      (shiftToTargetExponent Format.binary64 m e .exact).2 = e + (m.log2 - 52 : Nat) := by
  have places : (Format.binary64.targetExponent (totalExponent m e) - e).toNat = m.log2 - 52 := by
    change (max ((m.log2 : Int) + 1 + e - 53) (-1074) - e).toNat = m.log2 - 52
    omega
  constructor
  · refine (mantissa_shiftRight _ _).trans ?_
    rw [places]
    rfl
  · change e + ((_ : Nat) : Int) = _
    rw [places]

/-- A long mantissa is rounded to 53 binary digits, of which the last may carry once. -/
theorem roundWithAccuracy_normal (s : Sign) {m : Nat} {e : Int} (wide : 52 ≤ m.log2)
    (least : -1074 ≤ e) : ∃ m' e' positive,
      roundWithAccuracy Format.binary64 s m e .exact = .finite s m' e' positive ∧
        m'.log2 = 52 ∧ e + m.log2 - 52 ≤ e' ∧ e' ≤ e + m.log2 - 51 := by
  obtain ⟨lower, upper⟩ := leading_bounds wide
  obtain ⟨mantissa, exponent⟩ := shiftToTargetExponent_eq wide least
  unfold roundWithAccuracy
  dsimp only
  generalize shiftToTargetExponent Format.binary64 m e .exact = first at *
  obtain ⟨notBelow, notAbove⟩ : _ ≤ first.1.roundedMantissa ∧ first.1.roundedMantissa ≤ _ :=
    roundToNearestEven_bounds first.1.mantissa first.1.accuracy
  have wide : 52 ≤ first.1.roundedMantissa.log2 := (Nat.le_log2 (by omega)).mpr (by omega)
  have narrow : first.1.roundedMantissa.log2 < 54 := (Nat.log2_lt (by omega)).mpr (by omega)
  obtain ⟨lower, upper⟩ := leading_bounds wide
  obtain ⟨mantissa, exponent⟩ := shiftToTargetExponent_eq (e := first.2) wide (by omega)
  rw [dif_neg (by omega)]
  refine ⟨_, _, _, rfl, ?_, by omega, by omega⟩
  rw [mantissa]
  exact (Nat.log2_eq_iff (by omega)).mpr ⟨lower, upper⟩

/-! ## Powers of ten -/

theorem log2_scaled {n k : Nat} (positive : n ≠ 0) (below : n.log2 < k) :
    52 ≤ (1 <<< 53 * n).log2 ∧ (1 <<< 53 * n).log2 < 53 + k := by
  have scale : 1 <<< 53 = 2 ^ 53 := by decide
  have nonzero : 2 ^ 53 * n ≠ 0 := by omega
  rw [scale, Nat.le_log2 nonzero, Nat.log2_lt nonzero, Nat.pow_add]
  constructor
  · omega
  · exact Nat.mul_lt_mul_of_pos_left ((Nat.log2_lt positive).mp below) (by decide)

theorem log2_power {e : Nat} (small : e < 308) : (10 ^ e).log2 < 1023 := by
  have each : ∀ e : Nat, e < 308 → 10 ^ e < 2 ^ (333 * e / 100 + 1) := by decide +kernel
  have below := (Nat.log2_lt (Nat.ne_of_gt (Nat.pow_pos (by decide)))).mpr (each e small)
  omega

theorem finite_ofScientific {e : Nat} (small : e < 308) :
    NonzeroFinite (Float.Model.pack (UnpackedFloat.ofScientific Format.binary64 1 e)).unpack := by
  obtain ⟨wide, narrow⟩ :=
    log2_scaled (Nat.ne_of_gt (Nat.pow_pos (by decide))) (log2_power small)
  obtain ⟨m, exponent, positive, rounded, digits, lower, upper⟩ :=
    roundWithAccuracy_normal (e := -53 + 0) .positive wide (by decide)
  have product : UnpackedFloat.ofScientific Format.binary64 1 e =
      .finite .positive m exponent positive := by
    unfold UnpackedFloat.ofScientific
    rw [dif_neg (by decide), if_neg (by simp; omega), if_neg (by simp; omega), if_pos (by omega)]
    exact rounded
  rw [product]
  exact finite_unpack_pack digits (by omega) (by omega)

/-! ## Numbers -/

theorem isNumber_iff (x : Float) : (x == x) = true ↔ x.toModel.unpack ≠ .notANumber := by
  rw [beq_iff_rank]
  have number {u : UnpackedFloat} {a : Int × Int × Int} (isRank : rank u = some a)
      (notNone : u ≠ .notANumber) : (∃ b, rank u = some b ∧ rank u = some b) ↔ u ≠ .notANumber :=
    ⟨fun _ => notNone, fun _ => ⟨a, isRank, isRank⟩⟩
  cases x.toModel.unpack with
  | notANumber =>
    constructor
    · intro ranked
      obtain ⟨_, noRank, _⟩ := ranked
      cases noRank
    · intro number
      exact absurd rfl number
  | infinity s => exact number (rank_infinity s) nofun
  | zero s => exact number rfl nofun
  | finite s m e positive => exact number (rank_finite s e positive) nofun

section Values

variable {x y : Float}

theorem isNumber_neg (number : (x == x) = true) : (-x == -x) = true := by
  rw [isNumber_iff] at number ⊢
  exact unpack_pack_ne (neg_ne number)

theorem isNumber_mul (number : (x == x) = true) (finite : NonzeroFinite y.toModel.unpack) :
    (x * y == x * y) = true := by
  rw [isNumber_iff] at number ⊢
  exact unpack_pack_ne (mul_ne number finite)

theorem isNumber_div (number : (x == x) = true) (finite : NonzeroFinite y.toModel.unpack) :
    (x / y == x / y) = true := by
  rw [isNumber_iff] at number ⊢
  exact unpack_pack_ne (div_ne number finite)

theorem isNumber_of_isFinite (finite : Scalar.isFinite x = true) : (x == x) = true := by
  rw [isNumber_iff]
  intro none
  have same : (x - x).toModel.unpack = .notANumber := by
    change (Float.Model.pack
      (UnpackedFloat.sub Format.binary64 x.toModel.unpack x.toModel.unpack)).unpack = _
    rw [none]
    rfl
  obtain ⟨a, isA, _⟩ := (beq_iff_rank _ _).mp finite
  rw [same] at isA
  cases isA

end Values

theorem isNumber_ofScientific (digits : Nat) (negative : Bool) (e : Nat) :
    (Float.ofScientific digits negative e == Float.ofScientific digits negative e) = true := by
  unfold Float.ofScientific
  split
  · have powers : ∀ (e : Nat) (inside : e < Float.exactlyRepresentablePowersOfTen.size),
        NonzeroFinite Float.exactlyRepresentablePowersOfTen[e].toModel.unpack := by decide +kernel
    have whole : (digits.toUInt64.toFloat == digits.toUInt64.toFloat) = true :=
      (isNumber_iff _).mpr (unpack_pack_ne (normalize_ne _ _ _))
    dsimp only
    split
    · exact isNumber_div whole (powers _ _)
    · exact isNumber_mul whole (powers _ _)
  · exact (isNumber_iff _).mpr (unpack_pack_ne (ofScientific_ne _ _))

end FloatValue

open FloatValue

theorem Decimal.isNumber_toFloat (d : Decimal) : (d.toFloat == d.toFloat) = true := by
  unfold Decimal.toFloat
  split
  · decide +kernel
  dsimp only
  split
  · decide +kernel
  split
  · decide +kernel
  · exact isNumber_ofScientific _ _ _

theorem Numeral.isNumber_toFloat {n : Numeral} (number : n ≠ .nan) :
    (n.toFloat == n.toFloat) = true := by
  cases n with
  | nan => contradiction
  | infinite negative => cases negative <;> decide +kernel
  | finite negative d =>
    rw [toFloat]
    split
    · exact isNumber_neg d.isNumber_toFloat
    · exact d.isNumber_toFloat

theorem Scalar.isNumber_ofInt (n : Int) :
    ((Scalar.ofInt n : Float) == Scalar.ofInt n) = true := by
  have number : Numeral.ofInt n ≠ .nan := nofun
  rw [Scalar.ofInt]
  exact Numeral.isNumber_toFloat number

theorem finite_power {e : Nat} (small : e ≤ 308) :
    NonzeroFinite (Scalar.ofDecimal 1 e : Float).toModel.unpack := by
  rcases Nat.lt_or_ge e 23 with fast | slow
  · have each : ∀ e : Nat, e < 23 →
        NonzeroFinite (Scalar.ofDecimal 1 e : Float).toModel.unpack := by
      decide +kernel
    exact each e fast
  rcases Nat.lt_or_eq_of_le small with inside | last
  · have leading : Decimal.leadingExponent ⟨1, e⟩ = e := by
      have one : (Nat.toDigits 10 1).length = 1 := by decide
      simp [Decimal.leadingExponent, Decimal.digitChars, one]
    have value : (Scalar.ofDecimal 1 e : Float) = Float.ofScientific 1 false e := by
      change Decimal.toFloat ⟨1, e⟩ = _
      rw [Decimal.toFloat, if_neg Nat.one_ne_zero]
      dsimp only
      rw [leading, if_neg (by omega), if_neg (by omega), decide_eq_false (by omega)]
      rfl
    have notFast : ¬ (1 < 2 ^ 53 ∧ e ≤ 22) := by omega
    rw [value, Float.ofScientific, dif_neg notFast]
    exact finite_ofScientific inside
  · subst last
    decide +kernel

end MapStyle
