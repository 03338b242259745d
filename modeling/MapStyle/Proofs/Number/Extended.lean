import MapStyle.Proofs.Number.Real

/-!
# Real numbers with infinities

The numbers of the style language without rounding: the real numbers, two infinities, and the value
that is no number, with the special cases of floating-point arithmetic.  A numeral beyond every
64-bit floating-point number names an infinity.  Powers, roots and angles are any functions that
give real numbers where those of the real numbers are defined.
-/

set_option autoImplicit false

namespace MapStyle

/-- A real number, an infinity, or the value that is no number. -/
inductive Extended where
  | real (x : ℝ)
  | infinite (negative : Bool)
  | nan

namespace Extended

def IsReal (v : Extended) : Prop := ∃ x, v = real x

def InUnit (v : Extended) : Prop := ∃ x, v = real x ∧ 0 ≤ x ∧ x ≤ 1

@[simp] theorem isReal_real (x : ℝ) : IsReal (real x) := ⟨x, rfl⟩

theorem InUnit.isReal {v : Extended} (inUnit : InUnit v) : IsReal v := by
  obtain ⟨x, isReal, _⟩ := inUnit
  exact ⟨x, isReal⟩

/-- From here on numerals name infinities: halfway between the greatest 64-bit floating-point number
and the next power of two. -/
noncomputable def limit : ℝ := (2 ^ 1024 - 2 ^ 970 : ℕ)

noncomputable def ofNumeral : Numeral → Extended
  | .finite negative d =>
    let x : ℝ := Scalar.ofNumeral (.finite negative d)
    if |x| < limit then real x else infinite negative
  | .infinite negative => infinite negative
  | .nan => nan

theorem pow_lt_limit : (2 : ℝ) ^ 128 < limit := by
  have below : (2 ^ 128 : ℕ) < 2 ^ 1024 - 2 ^ 970 := by
    decide +kernel
  rw [limit]
  exact_mod_cast below

theorem ofNumeral_eq_nan_iff (n : Numeral) : ofNumeral n = nan ↔ n = .nan := by
  cases n with
  | finite negative d =>
    simp only [ofNumeral]
    split <;> simp
  | infinite negative => simp [ofNumeral]
  | nan => simp [ofNumeral]

def Le : Extended → Extended → Prop
  | real x, real y => x ≤ y
  | real _, infinite negative => negative = false
  | infinite negative, real _ => negative = true
  | infinite negative, infinite negative' => negative = true ∨ negative' = false
  | _, _ => False

def Lt : Extended → Extended → Prop
  | real x, real y => x < y
  | real _, infinite negative => negative = false
  | infinite negative, real _ => negative = true
  | infinite negative, infinite negative' => negative = true ∧ negative' = false
  | _, _ => False

noncomputable def equal : Extended → Extended → Bool
  | real x, real y => decide (x = y)
  | infinite negative, infinite negative' => negative == negative'
  | _, _ => false

noncomputable def neg : Extended → Extended
  | real x => real (-x)
  | infinite negative => infinite !negative
  | nan => nan

noncomputable def add : Extended → Extended → Extended
  | real x, real y => real (x + y)
  | real _, infinite negative | infinite negative, real _ => infinite negative
  | infinite negative, infinite negative' => if negative = negative' then infinite negative else nan
  | _, _ => nan

noncomputable def mul : Extended → Extended → Extended
  | real x, real y => real (x * y)
  | real x, infinite negative | infinite negative, real x =>
    if x = 0 then nan else infinite (negative != decide (x < 0))
  | infinite negative, infinite negative' => infinite (negative != negative')
  | _, _ => nan

noncomputable def div : Extended → Extended → Extended
  | real x, real y =>
    if y = 0 then if x = 0 then nan else infinite (decide (x < 0)) else real (x / y)
  | real _, infinite _ => real 0
  | infinite negative, real y => infinite (negative != decide (y < 0))
  | _, _ => nan

noncomputable def rem : Extended → Extended → Extended
  | real x, real y => if y = 0 then nan else real (Scalar.rem x y)
  | real x, infinite _ => real x
  | _, _ => nan

noncomputable def trunc : Extended → Extended
  | real x => real (Scalar.trunc x)
  | x => x

noncomputable def round : Extended → Extended
  | real x => real (Scalar.round x)
  | x => x

noncomputable def toInt : Extended → Int
  | real x => Scalar.toInt x
  | _ => 0

/-- Powers, roots and angles, and numerals for values.  Nothing is known of them but that the
functions give real numbers for real numbers: a power for a positive base, and a square root unless
the number is negative. -/
class Elementary where
  toNumeral : Tie → Extended → Numeral
  pow : Extended → Extended → Extended
  sqrt : Extended → Extended
  cbrt : Extended → Extended
  atan2 : Extended → Extended → Extended
  sin : Extended → Extended
  cos : Extended → Extended
  pow_real : ∀ x y : ℝ, 0 < x → ∃ z, pow (real x) (real y) = real z
  sqrt_real : ∀ x : ℝ, 0 ≤ x → ∃ z, sqrt (real x) = real z
  cbrt_real : ∀ x : ℝ, ∃ z, cbrt (real x) = real z
  atan2_real : ∀ y x : ℝ, ∃ z, atan2 (real y) (real x) = real z
  sin_real : ∀ x : ℝ, ∃ z, sin (real x) = real z
  cos_real : ∀ x : ℝ, ∃ z, cos (real x) = real z

/-- A function of real numbers; what is no real number gives no number. -/
def lift (f : ℝ → ℝ) : Extended → Extended
  | real x => real (f x)
  | _ => nan

def lift₂ (f : ℝ → ℝ → ℝ) : Extended → Extended → Extended
  | real x, real y => real (f x y)
  | _, _ => nan

noncomputable instance Elementary.ofReals : Elementary where
  toNumeral _ _ := .nan
  pow := lift₂ Scalar.pow
  sqrt := lift Scalar.sqrt
  cbrt := lift Scalar.cbrt
  atan2 := lift₂ Scalar.atan2
  sin := lift Scalar.sin
  cos := lift Scalar.cos
  pow_real _ _ _ := ⟨_, rfl⟩
  sqrt_real _ _ := ⟨_, rfl⟩
  cbrt_real _ := ⟨_, rfl⟩
  atan2_real _ _ := ⟨_, rfl⟩
  sin_real _ := ⟨_, rfl⟩
  cos_real _ := ⟨_, rfl⟩

noncomputable instance [Elementary] : Scalar Extended where
  add := add
  sub x y := add x (neg y)
  mul := mul
  div := div
  neg := neg
  le := Le
  lt := Lt
  beq := equal
  decideLe _ _ := Classical.propDecidable _
  decideLt _ _ := Classical.propDecidable _
  ofNumeral := ofNumeral
  toNumeral := Elementary.toNumeral
  rem := rem
  trunc := trunc
  round := round
  toInt := toInt
  pow := Elementary.pow
  sqrt := Elementary.sqrt
  cbrt := Elementary.cbrt
  atan2 := Elementary.atan2
  sin := Elementary.sin
  cos := Elementary.cos

variable [Elementary]

instance : Scalar.Ordered Extended where
  lt_iff x y := by
    show Lt x y ↔ Le x y ∧ ¬ Le y x
    rcases x with x | (_ | _) | _ <;> rcases y with y | (_ | _) | _ <;> simp [Lt, Le]
    exact le_of_lt
  beq_iff x y := by
    show equal x y = true ↔ Le x y ∧ Le y x
    rcases x with x | (_ | _) | _ <;> rcases y with y | (_ | _) | _ <;> simp [equal, Le]
    exact le_antisymm_iff
  le_trans x y z xy yz := by
    replace xy : Le x y := xy
    replace yz : Le y z := yz
    show Le x z
    rcases x with x | (_ | _) | _ <;> rcases y with y | (_ | _) | _ <;>
      rcases z with z | (_ | _) | _ <;> simp_all [Le]
    exact xy.trans yz
  le_total x y xNumber yNumber := by
    replace xNumber : Le x x := xNumber
    replace yNumber : Le y y := yNumber
    show Le x y ∨ Le y x
    rcases x with x | (_ | _) | _ <;> rcases y with y | (_ | _) | _ <;>
      simp_all [Le, LinearOrder.le_total]
  le_self_of_le x y le := by
    replace le : Le x y := le
    show Le x x ∧ Le y y
    rcases x with x | (_ | _) | _ <;> rcases y with y | (_ | _) | _ <;> simp_all [Le]

/-! ## Real numbers among the extended ones -/

variable {x y : ℝ}

@[simp] theorem real_add : real x + real y = real (x + y) := rfl

@[simp] theorem real_sub : real x - real y = real (x - y) := congrArg real (sub_eq_add_neg x y).symm

@[simp] theorem real_mul : real x * real y = real (x * y) := rfl

@[simp] theorem real_neg : -real x = real (-x) := rfl

theorem real_div (ne : y ≠ 0) : real x / real y = real (x / y) := if_neg ne

@[simp] theorem real_le : real x ≤ real y ↔ x ≤ y := Iff.rfl

@[simp] theorem real_lt : real x < real y ↔ x < y := Iff.rfl

@[simp] theorem real_beq : (real x == real y) = true ↔ x = y := decide_eq_true_iff

/-! ## Numerals -/

theorem ofNumeral_finite {negative : Bool} {d : Decimal} {x : ℝ}
    (isReal : (Scalar.ofNumeral (.finite negative d) : ℝ) = x) (small : |x| ≤ 2 ^ 128) :
    (Scalar.ofNumeral (.finite negative d) : Extended) = real x := by
  subst isReal
  exact if_pos (small.trans_lt pow_lt_limit)

theorem ofInt_eq {n : ℤ} (small : |n| ≤ 2 ^ 128) : (Scalar.ofInt n : Extended) = real n := by
  have magnitude : ((|n| : ℤ) : ℝ) ≤ ((2 ^ 128 : ℤ) : ℝ) := Int.cast_le.mpr small
  rw [Int.cast_abs, Int.cast_pow, Int.cast_ofNat] at magnitude
  exact ofNumeral_finite (Scalar.real_ofInt n) magnitude

/-! The numerals of the style language in terms of those of the real numbers. -/

@[simp] theorem zero_eq : @OfNat.ofNat Extended 0 (Scalar.literal 0) = real 0 :=
  (ofInt_eq (n := 0) (by norm_num)).trans (congrArg real Int.cast_zero)

@[simp] theorem one_eq : @OfNat.ofNat Extended 1 (Scalar.literal 1) = real 1 :=
  (ofInt_eq (n := 1) (by norm_num)).trans (congrArg real Int.cast_one)

@[simp] theorem ofNat_eq (n : ℕ) [n.AtLeastTwo] (small : n ≤ 2 ^ 128) :
    @OfNat.ofNat Extended n (Scalar.literal n) = real (OfNat.ofNat n) := by
  have magnitude : |(n : ℤ)| ≤ 2 ^ 128 := by
    rw [Nat.abs_cast]
    exact_mod_cast small
  exact (ofInt_eq magnitude).trans (congrArg real (Int.cast_natCast n))

@[simp] theorem decimal_eq (digits places : ℕ) (small : digits ≤ 2 ^ 128) :
    @OfScientific.ofScientific Extended Scalar.decimalLiteral digits true places =
      real (OfScientific.ofScientific digits true places) := by
  have value : (OfScientific.ofScientific digits true places : ℝ) = digits / 10 ^ places := by
    rw [NNRatCast.ofScientific_eq_ite, if_pos rfl, NNRat.divNat_eq_div]
    push_cast
    rfl
  have isReal : (Scalar.ofNumeral (.finite false ⟨digits, -places⟩) : ℝ) =
      OfScientific.ofScientific digits true places := by
    show (if false = true then -1 else 1) * (digits : ℝ) * (10 : ℝ) ^ (-places : ℤ) = _
    rw [value, if_neg (by decide), one_mul, zpow_neg, zpow_natCast, div_eq_mul_inv]
  refine ofNumeral_finite isReal ?_
  have magnitude : (digits : ℝ) ≤ 2 ^ 128 := by
    exact_mod_cast small
  have one_le : (1 : ℝ) ≤ 10 ^ places := one_le_pow₀ (by norm_num)
  rw [value, abs_of_nonneg (by positivity)]
  exact (div_le_self (Nat.cast_nonneg digits) one_le).trans magnitude

/-! ## Values that are no number -/

@[simp] theorem isNaN_real (x : ℝ) : Scalar.isNaN (real x) = false := by
  rw [Scalar.isNaN, real_beq.mpr rfl, Bool.not_true]

@[simp] theorem isNaN_nan : Scalar.isNaN nan = true := rfl

theorem isNaN_iff {v : Extended} : Scalar.isNaN v = true ↔ v = nan := by
  cases v with
  | real x => simp
  | infinite negative => cases negative <;> simp [Scalar.isNaN, BEq.beq, equal]
  | nan => simp

theorem nan_add (v : Extended) : nan + v = nan := by
  cases v <;> rfl

theorem add_nan (v : Extended) : v + nan = nan := by
  cases v <;> rfl

theorem nan_sub (v : Extended) : nan - v = nan := nan_add (neg v)

theorem sub_nan (v : Extended) : v - nan = nan := add_nan v

theorem nan_mul (v : Extended) : nan * v = nan := by
  cases v <;> rfl

theorem mul_nan (v : Extended) : v * nan = nan := by
  cases v <;> rfl

theorem nan_div (v : Extended) : nan / v = nan := by
  cases v <;> rfl

theorem not_le_nan (v : Extended) : ¬ v ≤ nan := by
  cases v <;> exact id

theorem not_nan_le (v : Extended) : ¬ nan ≤ v := by
  cases v <;> exact id

theorem not_nan_lt (v : Extended) : ¬ nan < v := by
  cases v <;> exact id

theorem not_lt_nan (v : Extended) : ¬ v < nan := by
  cases v <;> exact id

/-- Scaling by a positive number keeps numbers, infinities among them, and values that are none. -/
theorem mul_eq_nan_iff (v : Extended) (positive : 0 < y) : v * real y = nan ↔ v = nan := by
  cases v with
  | real x => simp
  | infinite negative =>
    have scaled : infinite negative * real y = infinite (negative != decide (y < 0)) :=
      if_neg positive.ne'
    simp [scaled]
  | nan => simp [nan_mul]

theorem div_eq_nan_iff (v : Extended) (positive : 0 < y) : v / real y = nan ↔ v = nan := by
  cases v with
  | real x => simp [real_div positive.ne']
  | infinite negative =>
    have scaled : infinite negative / real y = infinite (negative != decide (y < 0)) := rfl
    simp [scaled]
  | nan => simp [nan_div]

/-! ## Remainders -/

theorem real_rem (positive : 0 < y) : Scalar.rem (real x) (real y) = real (Scalar.rem x y) :=
  if_neg positive.ne'

theorem nan_rem (v : Extended) : Scalar.rem nan v = nan := by
  cases v <;> rfl

theorem infinite_rem (negative : Bool) (v : Extended) : Scalar.rem (infinite negative) v = nan := by
  cases v <;> rfl

/-! ## Values that are real numbers -/

theorem exists_real_of_between {v : Extended} (low : real x ≤ v) (high : v ≤ real y) :
    ∃ z, v = real z ∧ x ≤ z ∧ z ≤ y := by
  cases v with
  | real z => exact ⟨z, rfl, low, high⟩
  | infinite negative =>
    cases negative with
    | true => exact absurd low (by rintro ⟨⟩)
    | false => exact absurd high (by rintro ⟨⟩)
  | nan => exact absurd low (not_le_nan _)

namespace IsReal

variable {v w : Extended}

theorem add (left : IsReal v) (right : IsReal w) : IsReal (v + w) := by
  obtain ⟨x, rfl⟩ := left
  obtain ⟨y, rfl⟩ := right
  exact ⟨x + y, rfl⟩

theorem sub (left : IsReal v) (right : IsReal w) : IsReal (v - w) := by
  obtain ⟨x, rfl⟩ := left
  obtain ⟨y, rfl⟩ := right
  exact ⟨x - y, real_sub⟩

theorem mul (left : IsReal v) (right : IsReal w) : IsReal (v * w) := by
  obtain ⟨x, rfl⟩ := left
  obtain ⟨y, rfl⟩ := right
  exact ⟨x * y, rfl⟩

theorem div (given : IsReal v) {y : ℝ} (ne : y ≠ 0) : IsReal (v / real y) := by
  obtain ⟨x, rfl⟩ := given
  exact ⟨x / y, real_div ne⟩

theorem rem (given : IsReal v) {y : ℝ} (ne : y ≠ 0) : IsReal (Scalar.rem v (real y)) := by
  obtain ⟨x, rfl⟩ := given
  exact ⟨Scalar.rem x y, if_neg ne⟩

theorem max (left : IsReal v) (right : IsReal w) : IsReal (Scalar.max v w) := by
  unfold Scalar.max
  split_ifs
  · exact right
  · exact left
  · exact right
  · exact left

theorem cbrt (given : IsReal v) : IsReal (Scalar.cbrt v) := by
  obtain ⟨x, rfl⟩ := given
  exact Elementary.cbrt_real x

theorem atan2 (left : IsReal v) (right : IsReal w) : IsReal (Scalar.atan2 v w) := by
  obtain ⟨y, rfl⟩ := left
  obtain ⟨x, rfl⟩ := right
  exact Elementary.atan2_real y x

theorem sin (given : IsReal v) : IsReal (Scalar.sin v) := by
  obtain ⟨x, rfl⟩ := given
  exact Elementary.sin_real x

theorem cos (given : IsReal v) : IsReal (Scalar.cos v) := by
  obtain ⟨x, rfl⟩ := given
  exact Elementary.cos_real x

end IsReal

theorem clamp_real {v : Extended} (number : v ≠ nan) {low high : ℝ} (le : low ≤ high) :
    ∃ x, Scalar.clamp (real low) (real high) v = real x ∧ low ≤ x ∧ x ≤ high := by
  unfold Scalar.clamp
  split
  · exact ⟨low, rfl, le_rfl, le⟩
  · rename_i notBelow
    split
    · exact ⟨high, rfl, le, le_rfl⟩
    · rename_i notAbove
      cases v with
      | real x => exact ⟨x, rfl, not_lt.mp notBelow, not_lt.mp notAbove⟩
      | infinite negative =>
        cases negative with
        | true => exact absurd rfl notBelow
        | false => exact absurd rfl notAbove
      | nan => exact absurd rfl number

theorem clamp_nan (low high : Extended) : Scalar.clamp low high nan = nan := by
  rw [Scalar.clamp, if_neg (not_nan_lt low), if_neg (not_lt_nan high)]

end Extended

end MapStyle
