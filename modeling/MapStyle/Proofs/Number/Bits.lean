import MapStyle.Proofs.Number.Order
import MapStyle.Proofs.Number.Shortest

/-!
# Patterns of floating-point numbers

A floating-point number is compared by the sign, the mantissa and the exponent that its pattern of
bits gives.  So a number other than zero has one pattern, and a finite number is determined by the
shortest decimal of its magnitude and its sign.
-/

set_option autoImplicit false

namespace MapStyle

namespace FloatBits

open Float.Model (UnpackedFloat Format)
open Float.Model.UnpackedFloat (Sign)
open FloatOrder

def exponentField (bits : UInt64) : Nat := bits.toNat / 2 ^ 52 % 2 ^ 11

def fractionField (bits : UInt64) : Nat := bits.toNat % 2 ^ 52

def signField (bits : UInt64) : Nat := bits.toNat / 2 ^ 63

theorem signField_lt (bits : UInt64) : signField bits < 2 := by
  have := bits.toNat_lt
  unfold signField
  omega

theorem eq_of_fields {bits bits' : UInt64} (signs : signField bits = signField bits')
    (exponents : exponentField bits = exponentField bits')
    (fractions : fractionField bits = fractionField bits') : bits = bits' := by
  have := bits.toNat_lt
  have := bits'.toNat_lt
  unfold signField at signs
  unfold exponentField at exponents
  unfold fractionField at fractions
  apply UInt64.toNat.inj
  omega

/-! ## The magnitude of a pattern -/

theorem ofBits_eq (bits : UInt64) : Binary.ofBits bits =
    if exponentField bits = 0 then ⟨fractionField bits, -1074, false⟩
    else ⟨2 ^ 52 + fractionField bits, (exponentField bits : Int) - 1075,
      fractionField bits = 0 && 1 < exponentField bits⟩ := by
  have exponent : ((bits >>> 52) &&& 0x7FF).toNat = exponentField bits := by
    rw [UInt64.toNat_and, UInt64.toNat_shiftRight]
    exact (Nat.and_two_pow_sub_one_eq_mod _ 11).trans (by rw [Nat.shiftRight_eq_div_pow]; rfl)
  have fraction : (bits &&& 0xFFFFFFFFFFFFF).toNat = fractionField bits := by
    rw [UInt64.toNat_and]
    exact Nat.and_two_pow_sub_one_eq_mod _ 52
  simp only [Binary.ofBits, exponent, fraction]
  rfl

theorem canonical_ofBits (bits : UInt64) : (Binary.ofBits bits).Canonical := by
  have small : fractionField bits < 2 ^ 52 := Nat.mod_lt _ (by decide)
  rw [ofBits_eq]
  split
  · constructor <;> simp
    omega
  · constructor
    · dsimp only
      omega
    · dsimp only
      omega
    · intro _
      exact Nat.le_add_right _ _
    · simp only [Bool.and_eq_true, decide_eq_true_eq]
      omega

theorem fields_eq_of_ofBits {bits bits' : UInt64}
    (mantissas : (Binary.ofBits bits).mantissa = (Binary.ofBits bits').mantissa)
    (exponents : (Binary.ofBits bits).exponent = (Binary.ofBits bits').exponent) :
    exponentField bits = exponentField bits' ∧ fractionField bits = fractionField bits' := by
  have small : fractionField bits < 2 ^ 52 := Nat.mod_lt _ (by decide)
  have small' : fractionField bits' < 2 ^ 52 := Nat.mod_lt _ (by decide)
  rw [ofBits_eq, ofBits_eq] at mantissas exponents
  by_cases zero : exponentField bits = 0 <;> by_cases zero' : exponentField bits' = 0 <;>
    simp only [zero, zero', if_true, if_false] at mantissas exponents <;> omega

/-! ## What is compared -/

theorem unpackExponent_toNat (bits : UInt64) :
    (@UnpackedFloat.unpackExponent Format.binary64 bits.toBitVec).toNat = exponentField bits := by
  change (bits.toNat >>> 52) % 2 ^ 11 = _
  rw [Nat.shiftRight_eq_div_pow]
  rfl

theorem unpackMantissa_toNat (bits : UInt64) :
    (@UnpackedFloat.unpackMantissa Format.binary64 bits.toBitVec).toNat = fractionField bits := by
  change (bits.toNat >>> 0) % 2 ^ 52 = _
  rw [Nat.shiftRight_zero]
  rfl

theorem unpackSign_toNat (bits : UInt64) :
    (@UnpackedFloat.unpackSign Format.binary64 bits.toBitVec).toNat = signField bits := by
  change (bits.toNat >>> 63) % 2 ^ 1 = _
  have := bits.toNat_lt
  rw [Nat.shiftRight_eq_div_pow, signField]
  omega

def sign (bits : UInt64) : Sign := if signField bits = 0 then .positive else .negative

theorem ofBitVec_unpackSign (bits : UInt64) :
    Sign.ofBitVec (@UnpackedFloat.unpackSign Format.binary64 bits.toBitVec) = sign bits := by
  rw [Sign.ofBitVec, sign]
  congr 1
  rw [← BitVec.toNat_inj, unpackSign_toNat]
  rfl

/-- What a pattern stands for. -/
inductive Stands (bits : UInt64) : UnpackedFloat → Prop
  | infinity : exponentField bits = 2047 → fractionField bits = 0 →
    Stands bits (.infinity (sign bits))
  | notANumber : exponentField bits = 2047 → fractionField bits ≠ 0 → Stands bits .notANumber
  | zero : exponentField bits ≠ 2047 → (Binary.ofBits bits).mantissa = 0 →
    Stands bits (.zero (sign bits))
  | finite (positive : 0 < (Binary.ofBits bits).mantissa) : exponentField bits ≠ 2047 →
    Stands bits
      (.finite (sign bits) (Binary.ofBits bits).mantissa (Binary.ofBits bits).exponent positive)

theorem Stands.congr {bits : UInt64} {s : Sign} {m m' : Nat} {e e' : Int} {positive : 0 < m}
    {positive' : 0 < m'} (stands : Stands bits (.finite s m e positive)) (mantissas : m' = m)
    (exponents : e' = e) : Stands bits (.finite s m' e' positive') := by
  subst mantissas exponents
  exact stands

theorem stands_unpack (x : Float) : Stands x.toBits x.toModel.unpack := by
  change Stands x.toBits (UnpackedFloat.unpack Format.binary64 x.toBits.toBitVec)
  have magnitude := ofBits_eq x.toBits
  unfold UnpackedFloat.unpack
  dsimp only
  rw [ofBitVec_unpackSign]
  have mantissaZero (zero : fractionField x.toBits = 0) :
      @UnpackedFloat.unpackMantissa Format.binary64 x.toBits.toBitVec = 0#_ :=
    BitVec.toNat_inj.mp ((unpackMantissa_toNat x.toBits).trans zero)
  by_cases greatest : exponentField x.toBits = 2047
  · have top : @UnpackedFloat.unpackExponent Format.binary64 x.toBits.toBitVec = -1#_ :=
      BitVec.toNat_inj.mp ((unpackExponent_toNat x.toBits).trans greatest)
    rw [if_pos top]
    by_cases zero : fractionField x.toBits = 0
    · rw [if_pos (mantissaZero zero)]
      exact .infinity greatest zero
    · rw [if_neg fun none => zero ((unpackMantissa_toNat x.toBits).symm.trans
        (congrArg BitVec.toNat none))]
      exact .notANumber greatest zero
  · rw [if_neg fun all => greatest ((unpackExponent_toNat x.toBits).symm.trans
      (congrArg BitVec.toNat all))]
    by_cases least : exponentField x.toBits = 0
    · have bottom : @UnpackedFloat.unpackExponent Format.binary64 x.toBits.toBitVec = 0#_ :=
        BitVec.toNat_inj.mp ((unpackExponent_toNat x.toBits).trans least)
      rw [if_pos bottom]
      rw [if_pos least] at magnitude
      by_cases zero : fractionField x.toBits = 0
      · rw [dif_pos (mantissaZero zero)]
        apply Stands.zero greatest
        rw [magnitude]
        exact zero
      · rw [dif_neg fun none => zero ((unpackMantissa_toNat x.toBits).symm.trans
          (congrArg BitVec.toNat none))]
        have positive : 0 < (Binary.ofBits x.toBits).mantissa := by
          rw [magnitude]
          exact Nat.pos_of_ne_zero zero
        refine (Stands.finite positive greatest).congr ?_ ?_
        · rw [magnitude, unpackMantissa_toNat]
        · rw [magnitude, unpackExponent_toNat, least]
          rfl
    · rw [if_neg fun none => least ((unpackExponent_toNat x.toBits).symm.trans
        (congrArg BitVec.toNat none))]
      rw [if_neg least] at magnitude
      have positive : 0 < (Binary.ofBits x.toBits).mantissa := by
        rw [magnitude]
        exact Nat.add_pos_left (by decide) _
      refine (Stands.finite positive greatest).congr ?_ ?_
      · rw [magnitude, BitVec.toNat_append, unpackMantissa_toNat, ← Nat.shiftLeft_add_eq_or_of_lt]
        · rfl
        · exact Nat.mod_lt _ (by decide)
      · rw [magnitude, unpackExponent_toNat]
        rfl

theorem signField_eq {bits bits' : UInt64} (same : sign bits = sign bits') :
    signField bits = signField bits' := by
  have small := signField_lt bits
  have small' := signField_lt bits'
  unfold sign at same
  split at same <;> split at same
  · omega
  · cases same
  · cases same
  · omega

theorem sign_apply_injective {s : Sign} {a b : Int} (same : s.apply a = s.apply b) : a = b := by
  cases s with
  | positive => exact same
  | negative => exact Int.neg_inj.mp same

theorem eq_of_sign_apply {s s' : Sign} {a b : Int} (a_pos : 0 < a) (b_pos : 0 < b)
    (same : s.apply a = s'.apply b) : s = s' ∧ a = b := by
  cases s <;> cases s' <;> simp only [Sign.apply] at same <;> grind

theorem rank_infinity (s : Sign) : rank (.infinity s) = some (s.apply 2, 0, 0) := by
  cases s <;> rfl

theorem rank_finite (s : Sign) {m : Nat} (e : Int) (positive : 0 < m) :
    rank (.finite s m e positive) = some (s.apply 1, s.apply e, s.apply m) := by
  cases s <;> rfl

/-- Patterns of one rank are one, but for the zeros. -/
theorem eq_of_rank {bits bits' : UInt64} {u u' : UnpackedFloat} (stands : Stands bits u)
    (stands' : Stands bits' u') {a : Int × Int × Int} (first : rank u = some a)
    (second : rank u' = some a) (nonzero : a ≠ (0, 0, 0)) : bits = bits' := by
  cases stands with
  | notANumber => cases first
  | zero => exact absurd (Option.some.inj first).symm nonzero
  | infinity top none =>
    rw [rank_infinity, Option.some.injEq] at first
    subst first
    cases stands' with
    | notANumber => cases second
    | zero => exact absurd (Option.some.inj second).symm nonzero
    | infinity top' none' =>
      rw [rank_infinity, Option.some.injEq, Prod.mk.injEq] at second
      have signs := (eq_of_sign_apply (by decide) (by decide) second.1).1
      exact eq_of_fields (signField_eq signs.symm) (top.trans top'.symm) (none.trans none'.symm)
    | finite =>
      rw [rank_finite, Option.some.injEq, Prod.mk.injEq] at second
      exact absurd (eq_of_sign_apply (by decide) (by decide) second.1).2 (by decide)
  | finite positive below =>
    rw [rank_finite, Option.some.injEq] at first
    subst first
    cases stands' with
    | notANumber => cases second
    | zero => exact absurd (Option.some.inj second).symm nonzero
    | infinity =>
      rw [rank_infinity, Option.some.injEq, Prod.mk.injEq] at second
      exact absurd (eq_of_sign_apply (by decide) (by decide) second.1).2 (by decide)
    | finite positive' below' =>
      rw [rank_finite, Option.some.injEq, Prod.mk.injEq, Prod.mk.injEq] at second
      obtain ⟨ones, exponents, mantissas⟩ := second
      have signs := (eq_of_sign_apply (by decide) (by decide) ones).1
      rw [signs] at exponents mantissas
      have fields := fields_eq_of_ofBits (Int.ofNat_inj.mp (sign_apply_injective mantissas))
        (sign_apply_injective exponents)
      exact eq_of_fields (signField_eq signs.symm) fields.1.symm fields.2.symm

theorem eq_of_toBits {x y : Float} (same : x.toBits = y.toBits) : x = y := by
  obtain ⟨bits, valid⟩ := x
  obtain ⟨bits', valid'⟩ := y
  cases (same : bits = bits')
  rfl

/-- Numbers are equal where they have one rank. -/
theorem beq_iff_rank (x y : Float) : (x == y) = true ↔
    ∃ a, rank x.toModel.unpack = some a ∧ rank y.toModel.unpack = some a := by
  have beq : (x == y) = true ↔ _ := beq_iff x.toModel.unpack y.toModel.unpack
  rw [beq, le_iff, le_iff]
  constructor
  · rintro ⟨⟨a, b, isA, isB, ab⟩, b', a', isB', isA', ba⟩
    obtain rfl := Option.some.inj (isA.symm.trans isA')
    obtain rfl := Option.some.inj (isB.symm.trans isB')
    have same : a = b := by
      simp only [AtMost] at ab ba
      ext <;> omega
    exact ⟨a, isA, same ▸ isB⟩
  · rintro ⟨a, isA, isA'⟩
    exact ⟨⟨a, a, isA, isA', atMost_self a⟩, a, a, isA', isA, atMost_self a⟩

theorem rank_zero : rank (Scalar.ofInt 0 : Float).toModel.unpack = some (0, 0, 0) := by
  decide

/-- Equal numbers other than zero are one. -/
theorem eq_of_beq {x y : Float} (same : (x == y) = true)
    (nonzero : ¬ (x == (Scalar.ofInt 0 : Float)) = true) : x = y := by
  obtain ⟨a, isA, isA'⟩ := (beq_iff_rank x y).mp same
  apply eq_of_toBits
  apply eq_of_rank (stands_unpack x) (stands_unpack y) isA isA'
  rintro rfl
  exact nonzero ((beq_iff_rank _ _).mpr ⟨_, isA, rank_zero⟩)

end FloatBits

end MapStyle
