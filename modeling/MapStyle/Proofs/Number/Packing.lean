import MapStyle.Proofs.Number.Bits

/-!
# Packing

The results of operations are packed into patterns.  What a pattern unpacks to has a shape of which
each value has one, and a value of such a shape is what its pattern unpacks to.
-/

set_option autoImplicit false

namespace MapStyle

namespace FloatBits

open Float.Model (UnpackedFloat Format totalExponent)
open Float.Model.UnpackedFloat (Sign packComponents unpackExponent_packComponents
  unpackMantissa_packComponents)

/-! ## Shapes of patterns -/

/-- A mantissa and an exponent of which a finite value has one pair: 53 binary digits, or fewer at
the least exponent. -/
structure Fits (m : Nat) (e : Int) : Prop where
  least : -1074 ≤ e
  greatest : e ≤ 971
  bounded : m < 2 ^ 53
  full : -1074 < e → 2 ^ 52 ≤ m

inductive Shape : UnpackedFloat → Prop
  | notANumber : Shape .notANumber
  | infinity (s : Sign) : Shape (.infinity s)
  | zero (s : Sign) : Shape (.zero s)
  | finite (s : Sign) {m : Nat} {e : Int} (positive : 0 < m) : Fits m e →
    Shape (.finite s m e positive)

theorem fits_ofBits {bits : UInt64} (below : exponentField bits ≠ 2047) :
    Fits (Binary.ofBits bits).mantissa (Binary.ofBits bits).exponent := by
  have canonical := canonical_ofBits bits
  refine ⟨canonical.least, ?_, canonical.bounded, canonical.full⟩
  have field : exponentField bits < 2048 := Nat.mod_lt _ (by decide)
  rw [ofBits_eq]
  split
  · dsimp only
    omega
  · dsimp only
    omega

theorem shape_unpack (x : Float) : Shape x.toModel.unpack := by
  have stands := stands_unpack x
  generalize x.toModel.unpack = u at stands
  cases stands with
  | infinity => exact .infinity _
  | notANumber => exact .notANumber
  | zero => exact .zero _
  | finite positive below => exact .finite _ positive (fits_ofBits below)

/-- A value that fits has the exponent that rounding aims at. -/
theorem Fits.targetExponent_eq {m : Nat} {e : Int} (fits : Fits m e) (positive : 0 < m) :
    Format.binary64.targetExponent (totalExponent m e) = e := by
  have least := fits.least
  have narrow : m.log2 < 53 := (Nat.log2_lt (by omega)).mpr fits.bounded
  have wide : -1074 < e → 52 ≤ m.log2 := by
    intro above
    exact (Nat.le_log2 (by omega)).mpr (fits.full above)
  change max ((m.log2 : Int) + 1 + e - 53) (-1074) = e
  omega

/-! ## Components -/

theorem sign_packComponents {spec : Format} (s : Sign) (exponent : BitVec spec.exponentBits)
    (mantissa : BitVec spec.mantissaBitsWithoutImplicit) :
    Sign.ofBitVec (UnpackedFloat.unpackSign (packComponents spec s exponent mantissa)) = s := by
  have field : UnpackedFloat.unpackSign (packComponents spec s exponent mantissa) = s.toBitVec := by
    ext i hi
    obtain rfl : i = 0 := by omega
    unfold UnpackedFloat.unpackSign packComponents
    simp [BitVec.getLsbD_append, BitVec.getElem_append]
  rw [field]
  cases s <;> rfl

theorem finite_congr {s : Sign} {m m' : Nat} {e e' : Int} {positive : 0 < m} {positive' : 0 < m'}
    (mantissas : m = m') (exponents : e = e') :
    UnpackedFloat.finite s m e positive = .finite s m' e' positive' := by
  subst mantissas exponents
  rfl

section Components

variable (s : Sign)

theorem unpack_special (mantissa : BitVec 52) :
    UnpackedFloat.unpack Format.binary64 (packComponents Format.binary64 s (-1#11) mantissa) =
      if mantissa = 0#52 then .infinity s else .notANumber := by
  unfold UnpackedFloat.unpack
  dsimp only
  rw [if_pos unpackExponent_packComponents, unpackMantissa_packComponents, sign_packComponents]

theorem unpack_zero :
    UnpackedFloat.unpack Format.binary64 (packComponents Format.binary64 s 0#11 0#52) =
      .zero s := by
  unfold UnpackedFloat.unpack
  dsimp only
  rw [unpackExponent_packComponents, if_neg (by decide), if_pos rfl,
    dif_pos unpackMantissa_packComponents, sign_packComponents]

theorem unpack_subnormal {m : Nat} (positive : 0 < m) (small : m < 2 ^ 52) :
    UnpackedFloat.unpack Format.binary64
      (packComponents Format.binary64 s 0#11 (BitVec.ofNat 52 m)) =
        .finite s m (-1074) positive := by
  have mantissa : (BitVec.ofNat 52 m).toNat = m := by
    rw [BitVec.toNat_ofNat]
    omega
  unfold UnpackedFloat.unpack
  dsimp only
  rw [unpackExponent_packComponents, if_neg (by decide), if_pos rfl, dif_neg, sign_packComponents]
  · refine finite_congr ?_ rfl
    rw [unpackMantissa_packComponents]
    exact mantissa
  · intro zero
    rw [unpackMantissa_packComponents] at zero
    rw [zero] at mantissa
    exact absurd mantissa (Nat.ne_of_lt positive)

theorem unpack_normal {m field : Nat} (positive : 0 < m) (full : 2 ^ 52 ≤ m) (small : m < 2 ^ 53)
    (notBottom : 0 < field) (notTop : field < 2047) :
    UnpackedFloat.unpack Format.binary64
      (packComponents Format.binary64 s (BitVec.ofNat 11 field) (BitVec.ofNat 52 m)) =
      .finite s m ((field : Int) - 1075) positive := by
  have exponent : (BitVec.ofNat 11 field).toNat = field := by
    rw [BitVec.toNat_ofNat]
    omega
  have mantissa : (1#1 ++ BitVec.ofNat 52 m).toNat = m := by
    rw [BitVec.toNat_append, ← Nat.shiftLeft_add_eq_or_of_lt (BitVec.isLt _), BitVec.toNat_ofNat]
    change 2 ^ 52 + m % 2 ^ 52 = m
    omega
  unfold UnpackedFloat.unpack
  dsimp only
  rw [unpackExponent_packComponents, if_neg, if_neg, sign_packComponents]
  · refine finite_congr ?_ ?_
    · rw [unpackMantissa_packComponents]
      exact mantissa
    · rw [exponent]
      rfl
  · intro bottom
    rw [bottom] at exponent
    exact absurd exponent (Nat.ne_of_lt notBottom)
  · intro top
    rw [top] at exponent
    exact absurd exponent (Nat.ne_of_gt notTop)

end Components

theorem not_beyond_iff {e : Int} :
    ¬ 2 ^ Format.binary64.exponentBits ≤ (e + Format.binary64.exponentBias +
      Format.binary64.mantissaBitsWithoutImplicit).toNat + 1 ↔ e ≤ 971 := by
  change ¬ 2048 ≤ (e + 1023 + 52).toNat + 1 ↔ _
  omega

/-- A number that is not too great is packed with its exponent, or as a subnormal one. -/
theorem pack_finite (s : Sign) {m : Nat} {e : Int} (positive : 0 < m) (greatest : e ≤ 971) :
    UnpackedFloat.pack Format.binary64 (.finite s m e positive) =
      if m.log2 + 1 = Format.binary64.mantissaBits then
        packComponents Format.binary64 s (BitVec.ofNat 11 (e + 1023 + 52).toNat)
          (BitVec.ofNat 52 m)
      else packComponents Format.binary64 s 0#11 (BitVec.ofNat 52 m) :=
  if_neg (not_beyond_iff.mpr greatest)

theorem pack_beyond (s : Sign) {m : Nat} {e : Int} (positive : 0 < m) (beyond : 971 < e) :
    UnpackedFloat.pack Format.binary64 (.finite s m e positive) =
      UnpackedFloat.packedInfinity Format.binary64 s := by
  refine if_pos (Decidable.not_not.mp fun inside => ?_)
  have := not_beyond_iff.mp inside
  omega

/-- A value that fits is what its pattern unpacks to. -/
theorem unpack_pack {u : UnpackedFloat} (shape : Shape u) : (Float.Model.pack u).unpack = u := by
  change UnpackedFloat.unpack Format.binary64 (UnpackedFloat.pack Format.binary64 u) = u
  cases shape with
  | notANumber => exact unpack_special .positive _
  | infinity s => exact unpack_special s _
  | zero s => exact unpack_zero s
  | @finite s m e positive fits =>
    have bounded := fits.bounded
    have least := fits.least
    have greatest := fits.greatest
    have digits := Nat.log2_eq_iff (n := m) (k := 52) (by omega)
    rw [pack_finite s positive greatest]
    by_cases normal : m.log2 + 1 = Format.binary64.mantissaBits
    · rw [if_pos normal]
      have full : 2 ^ 52 ≤ m := (digits.mp (Nat.succ.inj (normal.trans (Nat.add_comm 1 52)))).1
      rw [unpack_normal s positive full bounded (by omega) (by omega)]
      exact finite_congr rfl (by omega)
    · rw [if_neg normal]
      have few : m < 2 ^ 52 := by
        apply Nat.lt_of_not_le
        intro full
        exact normal (congrArg (· + 1) (digits.mpr ⟨full, bounded⟩))
      obtain rfl : e = -1074 := by
        have full := fits.full
        omega
      exact unpack_subnormal s positive few

end FloatBits

end MapStyle
