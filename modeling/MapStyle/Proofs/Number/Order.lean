import MapStyle.Number.Float

/-!
# The order of numbers

What is used of comparisons: they are a total order on the values that are numbers, and false where
one of the two is none.  The floating-point numbers that programs run with are ordered so.
-/

set_option autoImplicit false

namespace MapStyle

namespace Scalar

/-- Comparisons that order numbers totally and are false of a value that is none. -/
class Ordered (ν : Type) [Scalar ν] : Prop where
  lt_iff : ∀ x y : ν, x < y ↔ x ≤ y ∧ ¬ y ≤ x
  beq_iff : ∀ x y : ν, (x == y) = true ↔ x ≤ y ∧ y ≤ x
  le_trans : ∀ x y z : ν, x ≤ y → y ≤ z → x ≤ z
  le_total : ∀ x y : ν, x ≤ x → y ≤ y → x ≤ y ∨ y ≤ x
  le_self_of_le : ∀ x y : ν, x ≤ y → x ≤ x ∧ y ≤ y

variable {ν : Type} [Scalar ν] [Ordered ν] {x y z : ν}

theorem le_trans (xy : x ≤ y) (yz : y ≤ z) : x ≤ z := Ordered.le_trans x y z xy yz

theorem le_of_lt (lt : x < y) : x ≤ y := ((Ordered.lt_iff x y).mp lt).1

theorem not_le_of_lt (lt : x < y) : ¬ y ≤ x := ((Ordered.lt_iff x y).mp lt).2

theorem lt_irrefl (x : ν) : ¬ x < x := fun lt => not_le_of_lt lt (le_of_lt lt)

theorem lt_of_lt_of_le (xy : x < y) (yz : y ≤ z) : x < z :=
  (Ordered.lt_iff x z).mpr
    ⟨le_trans (le_of_lt xy) yz, fun zx => not_le_of_lt xy (le_trans yz zx)⟩

theorem lt_of_le_of_lt (xy : x ≤ y) (yz : y < z) : x < z :=
  (Ordered.lt_iff x z).mpr
    ⟨le_trans xy (le_of_lt yz), fun zx => not_le_of_lt yz (le_trans zx xy)⟩

theorem lt_trans (xy : x < y) (yz : y < z) : x < z := lt_of_lt_of_le xy (le_of_lt yz)

theorem le_of_beq (same : (x == y) = true) : x ≤ y := ((Ordered.beq_iff x y).mp same).1

theorem beq_self_of_le (le : x ≤ y) : (y == y) = true := by
  have self : y ≤ y := (Ordered.le_self_of_le x y le).2
  exact (Ordered.beq_iff y y).mpr ⟨self, self⟩

theorem beq_symm (same : (x == y) = true) : (y == x) = true :=
  (Ordered.beq_iff y x).mpr ((Ordered.beq_iff x y).mp same).symm

theorem beq_trans (xy : (x == y) = true) (yz : (y == z) = true) : (x == z) = true :=
  (Ordered.beq_iff x z).mpr ⟨le_trans (le_of_beq xy) (le_of_beq yz),
    le_trans (le_of_beq (beq_symm yz)) (le_of_beq (beq_symm xy))⟩

theorem lt_of_not_le (xNumber : x ≤ x) (yNumber : y ≤ y) (notLe : ¬ y ≤ x) : x < y := by
  rcases Ordered.le_total x y xNumber yNumber with le | ge
  · exact (Ordered.lt_iff x y).mpr ⟨le, notLe⟩
  · exact absurd ge notLe

theorem le_of_not_lt (xNumber : x ≤ x) (yNumber : y ≤ y) (notBelow : ¬ y < x) : x ≤ y := by
  by_cases le : x ≤ y
  · exact le
  · exact absurd (lt_of_not_le yNumber xNumber le) notBelow

/-- Numbers of which the second is not below the first and does not equal it ascend. -/
theorem lt_of_not_lt_of_not_beq (xNumber : (x == x) = true) (yNumber : (y == y) = true)
    (notBelow : ¬ y < x) (differ : (x == y) = false) : x < y := by
  have le : x ≤ y := le_of_not_lt (le_of_beq xNumber) (le_of_beq yNumber) notBelow
  refine (Ordered.lt_iff x y).mpr ⟨le, fun ge => ?_⟩
  exact absurd ((Ordered.beq_iff x y).mpr ⟨le, ge⟩) (by rw [differ]; decide)

end Scalar

/-! ## Floating-point numbers -/

namespace FloatOrder

open Float.Model (UnpackedFloat)

/-- What orders a number: its kind from the negative infinity to the positive one, then exponent
and mantissa, downward for negative numbers. -/
def rank : UnpackedFloat → Option (Int × Int × Int)
  | .notANumber => none
  | .infinity .negative => some (-2, 0, 0)
  | .finite .negative m e _ => some (-1, -e, -m)
  | .zero _ => some (0, 0, 0)
  | .finite .positive m e _ => some (1, e, m)
  | .infinity .positive => some (2, 0, 0)

def AtMost (a b : Int × Int × Int) : Prop :=
  a.1 < b.1 ∨ a.1 = b.1 ∧ (a.2.1 < b.2.1 ∨ a.2.1 = b.2.1 ∧ a.2.2 ≤ b.2.2)

def order (a b : Int × Int × Int) : Ordering :=
  (compare a.1 b.1).then ((compare a.2.1 b.2.1).then (compare a.2.2 b.2.2))

theorem order_eq_lt (a b : Int × Int × Int) : order a b = .lt ↔ AtMost a b ∧ ¬ AtMost b a := by
  simp only [order, Ordering.then_eq_lt, Int.compare_eq_lt, Int.compare_eq_eq, AtMost]
  omega

theorem order_eq_eq (a b : Int × Int × Int) : order a b = .eq ↔ AtMost a b ∧ AtMost b a := by
  simp only [order, Ordering.then_eq_eq, Int.compare_eq_eq, AtMost]
  omega

theorem order_isLE (a b : Int × Int × Int) : (order a b).isLE = true ↔ AtMost a b := by
  rw [Ordering.isLE_iff_eq_lt_or_eq_eq, order_eq_lt, order_eq_eq]
  simp only [AtMost]
  omega

theorem compare_int (a b : Int) :
    compare a b = if a < b then .lt else if a = b then .eq else .gt := rfl

theorem compare_nat (a b : Nat) : compare a b = compare (a : Int) (b : Int) := by
  show compareOfLessAndEq a b = compareOfLessAndEq (a : Int) (b : Int)
  simp only [compareOfLessAndEq, Int.ofNat_lt, Int.ofNat_inj]

theorem compare_neg (a b : Int) : compare (-a) (-b) = (compare a b).swap := by
  rw [compare_int, compare_int]
  rcases Int.lt_trichotomy a b with lt | rfl | gt
  · rw [if_neg (by omega), if_neg (by omega), if_pos lt]
    rfl
  · rw [if_neg (Int.lt_irrefl _), if_pos rfl, if_neg (Int.lt_irrefl _), if_pos rfl]
    rfl
  · rw [if_pos (by omega), if_neg (by omega), if_neg (by omega)]
    rfl

theorem compare_eq_order (u v : UnpackedFloat) :
    u.compare v = (rank u).bind fun a => (rank v).map fun b => order a b := by
  cases u with
  | notANumber => rfl
  | infinity s => cases s <;> cases v with
    | finite t _ _ _ => cases t <;> rfl
    | infinity t => cases t <;> rfl
    | _ => rfl
  | zero _ => cases v with
    | finite t _ _ _ => cases t <;> rfl
    | infinity t => cases t <;> rfl
    | _ => rfl
  | finite s m e _ => cases s <;> cases v with
    | infinity t => cases t <;> rfl
    | finite t m' e' _ =>
      cases t with
      | positive => first
        | rfl
        | show some ((compare e e').then (compare m m')) =
            some ((compare e e').then (compare (m : Int) (m' : Int)))
          rw [compare_nat]
      | negative => first
        | rfl
        | show some ((compare e e').then (compare m m')).swap =
            some ((compare (-e) (-e')).then (compare (-(m : Int)) (-(m' : Int))))
          rw [compare_neg, compare_neg, compare_nat, Ordering.swap_then]
    | _ => rfl

theorem le_iff (u v : UnpackedFloat) :
    u.le v = true ↔ ∃ a b, rank u = some a ∧ rank v = some b ∧ AtMost a b := by
  rw [UnpackedFloat.le, compare_eq_order]
  cases rank u with
  | none => simp
  | some a =>
    cases rank v with
    | none => simp
    | some b => simpa using order_isLE a b

theorem lt_iff (u v : UnpackedFloat) : u.lt v = true ↔ u.le v = true ∧ ¬ v.le u = true := by
  rw [le_iff, le_iff, UnpackedFloat.lt, compare_eq_order]
  cases rank u with
  | none => simp
  | some a =>
    cases rank v with
    | none => simp
    | some b => simpa using order_eq_lt a b

theorem beq_iff (u v : UnpackedFloat) : u.beq v = true ↔ u.le v = true ∧ v.le u = true := by
  show (u.compare v == some .eq) = true ↔ _
  rw [le_iff, le_iff, compare_eq_order]
  cases rank u with
  | none => simp
  | some a =>
    cases rank v with
    | none => simp
    | some b => simpa using order_eq_eq a b

theorem float_le (x y : Float) : x ≤ y ↔ x.toModel.unpack.le y.toModel.unpack = true := by
  show decide (x.toModel ≤ y.toModel) = true ↔ _
  exact decide_eq_true_iff

theorem float_lt (x y : Float) : x < y ↔ x.toModel.unpack.lt y.toModel.unpack = true := by
  show decide (x.toModel < y.toModel) = true ↔ _
  exact decide_eq_true_iff

theorem float_le_iff (x y : Float) :
    x ≤ y ↔ ∃ a b, rank x.toModel.unpack = some a ∧ rank y.toModel.unpack = some b ∧ AtMost a b :=
  (float_le x y).trans (le_iff _ _)

theorem atMost_self (a : Int × Int × Int) : AtMost a a := by
  simp [AtMost]

theorem AtMost.trans {a b c : Int × Int × Int} (ab : AtMost a b) (bc : AtMost b c) :
    AtMost a c := by
  simp only [AtMost] at ab bc ⊢
  omega

theorem atMost_total (a b : Int × Int × Int) : AtMost a b ∨ AtMost b a := by
  simp only [AtMost]
  omega

end FloatOrder

open FloatOrder in
instance : Scalar.Ordered Float where
  lt_iff x y := by
    have lt := (float_lt x y).trans (lt_iff x.toModel.unpack y.toModel.unpack)
    rw [← float_le, ← float_le] at lt
    exact lt
  beq_iff x y := by
    have beq := beq_iff x.toModel.unpack y.toModel.unpack
    rw [← float_le, ← float_le] at beq
    exact beq
  le_trans x y z xy yz := by
    obtain ⟨a, b, isA, isB, ab⟩ := (float_le_iff x y).mp xy
    obtain ⟨b', c, isB', isC, bc⟩ := (float_le_iff y z).mp yz
    obtain rfl := Option.some.inj (isB.symm.trans isB')
    exact (float_le_iff x z).mpr ⟨a, c, isA, isC, ab.trans bc⟩
  le_total x y xx yy := by
    obtain ⟨a, _, isA, _⟩ := (float_le_iff x x).mp xx
    obtain ⟨b, _, isB, _⟩ := (float_le_iff y y).mp yy
    exact (atMost_total a b).imp (fun ab => (float_le_iff x y).mpr ⟨a, b, isA, isB, ab⟩)
      (fun ba => (float_le_iff y x).mpr ⟨b, a, isB, isA, ba⟩)
  le_self_of_le x y xy := by
    obtain ⟨a, b, isA, isB, _⟩ := (float_le_iff x y).mp xy
    exact ⟨(float_le_iff x x).mpr ⟨a, a, isA, isA, atMost_self a⟩,
      (float_le_iff y y).mpr ⟨b, b, isB, isB, atMost_self b⟩⟩

end MapStyle
