import MapStyle.Proofs.Number.Positions
import MapStyle.Proofs.Value.Rendering

/-!
# Values through documents

Plain data is written as a document and read back as an equal value, and so are paddings and number
arrays, each by its own reader.  A finite number is written in one of two ways: as an integer if it
is whole and below `2 ^ 53`, so that the integer names it, and as it is otherwise.
-/

set_option autoImplicit false

namespace MapStyle

namespace FloatReading

open Float.Model (UnpackedFloat)

variable {x y : Float} {q : ℚ}

theorem beq_of_reading (first : reading x = .exact q) (second : reading y = .exact q) :
    (x == y) = true := by
  rw [Scalar.Ordered.beq_iff, le_iff_reading, le_iff_reading, first, second]
  exact ⟨Reading.exact_le_exact.mpr le_rfl, Reading.exact_le_exact.mpr le_rfl⟩

theorem eq_of_beq_reading {r : ℚ} (first : reading x = .exact q) (second : reading y = .exact r)
    (same : (x == y) = true) : q = r := by
  rw [Scalar.Ordered.beq_iff, le_iff_reading, le_iff_reading, first, second] at same
  exact le_antisymm (Reading.exact_le_exact.mp same.1) (Reading.exact_le_exact.mp same.2)

theorem sub_self_of_reading (exact : reading x = .exact q) : reading (x - x) = .exact 0 := by
  have stands := standsFor_of_reading exact
  have difference : x - x =
      .ofModel (.pack (.sub .binary64 x.toModel.unpack x.toModel.unpack)) := rfl
  have zero : ∃ s, UnpackedFloat.sub .binary64 x.toModel.unpack x.toModel.unpack = .zero s := by
    generalize x.toModel.unpack = u at stands
    cases stands with
    | zero s => cases s <;> exact ⟨_, rfl⟩
    | finite s positive fits =>
      refine ⟨.positive, ?_⟩
      unfold UnpackedFloat.sub UnpackedFloat.decreaseExponent
      dsimp only
      rw [Int.sub_self]
      rfl
  obtain ⟨s, zero⟩ := zero
  rw [difference, zero]
  exact (StandsFor.zero s).reading_pack

/-- The numbers that are finite by the difference of themselves are those that stand for a
rational. -/
theorem isFinite_iff (x : Float) : Scalar.isFinite x = true ↔ ∃ q, reading x = .exact q := by
  constructor
  · intro finite
    have isFinite : x.toModel.unpack.isFinite = true := by
      by_contra notFinite
      rw [FloatBits.not_isFinite (Bool.eq_false_iff.mpr notFinite)] at finite
      cases finite
    unfold reading
    generalize x.toModel.unpack = u at isFinite
    cases u with
    | notANumber => cases isFinite
    | infinity s => cases isFinite
    | zero s => exact ⟨_, rfl⟩
    | finite s m e positive => exact ⟨_, rfl⟩
  · rintro ⟨q, exact⟩
    exact beq_of_reading (sub_self_of_reading exact) reading_zero

theorem reading_ofInt_of_abs_lt {n : ℤ} (small : |n| < 2 ^ 53) :
    reading (Scalar.ofInt n : Float) = .exact n := by
  rcases le_or_gt 0 n with nonneg | negative
  · obtain ⟨k, rfl⟩ := Int.eq_ofNat_of_zero_le nonneg
    exact reading_ofInt (by simpa using small)
  · obtain ⟨k, opposite⟩ := Int.eq_ofNat_of_zero_le (Int.neg_nonneg_of_nonpos negative.le)
    obtain rfl : n = -k := by omega
    have few : k < 2 ^ 53 := by simpa using small
    have value : (Scalar.ofInt (-k) : Float) = -Scalar.ofInt k := by
      change Numeral.toFloat (.finite (decide (-(k : ℤ) < 0)) ⟨(-(k : ℤ)).natAbs, 0⟩) =
        -Numeral.toFloat (.finite (decide ((k : ℤ) < 0)) ⟨k, 0⟩)
      rw [decide_eq_true negative, decide_eq_false (by omega), Int.natAbs_neg, Int.natAbs_natCast]
      rfl
    rw [value, reading_neg (reading_ofInt few), Int.cast_neg, Int.cast_natCast]

theorem abs_wholePart_lt (small : |q| < 2 ^ 53) : |wholePart q| < 2 ^ 53 := by
  obtain ⟨low, high⟩ := abs_lt.mp small
  rw [abs_lt, wholePart]
  split
  · rename_i nonneg
    have floor : 0 ≤ ⌊q⌋ := Int.floor_nonneg.mpr nonneg
    exact ⟨by omega, Int.floor_lt.mpr (by exact_mod_cast high)⟩
  · rename_i negative
    have ceil : ⌈q⌉ ≤ 0 := Int.ceil_le.mpr (by exact_mod_cast (not_le.mp negative).le)
    exact ⟨Int.lt_ceil.mpr (by exact_mod_cast low), by omega⟩

theorem lt_zero_iff (exact : reading x = .exact q) : x < Scalar.ofInt 0 ↔ q < 0 := by
  rw [lt_iff_reading, exact, reading_zero, Reading.exact_le_exact, Reading.exact_le_exact]
  exact lt_iff_le_not_ge.symm

theorem reading_abs (exact : reading x = .exact q) : reading (Scalar.abs x) = .exact |q| := by
  have below := lt_zero_iff exact
  unfold Scalar.abs
  split
  · rename_i negative
    rw [reading_neg exact, abs_of_neg (below.mp negative)]
  · rename_i nonneg
    rw [exact, abs_of_nonneg (not_lt.mp (below.not.mp nonneg))]

theorem reading_limit : reading (Scalar.ofInt exactWholeLimit) = .exact (2 ^ 53) := by
  have value : (Scalar.ofInt exactWholeLimit : Float).toModel.unpack =
      .finite .positive (2 ^ 52) 1 (by decide) := rfl
  rw [reading, value, read, scaled_positive]
  norm_num

theorem abs_lt_limit_iff (exact : reading x = .exact q) :
    Scalar.abs x < Scalar.ofInt exactWholeLimit ↔ |q| < 2 ^ 53 := by
  rw [lt_iff_reading, reading_abs exact, reading_limit, Reading.exact_le_exact,
    Reading.exact_le_exact]
  exact lt_iff_le_not_ge.symm

end FloatReading

open FloatReading

/-! ## Numbers -/

/-- The two ways in which finite numbers are written. -/
theorem Json.ofNumber_eq {x : Float} {q : ℚ} (exact : reading x = .exact q) :
    Json.ofNumber x =
      if (wholePart q : ℚ) = q ∧ |q| < 2 ^ 53 then .int (wholePart q) else .float x := by
  have small := abs_lt_limit_iff exact
  have finite : Scalar.isFinite x = true := (isFinite_iff x).mpr ⟨q, exact⟩
  obtain ⟨negative, d, numeral⟩ := Scalar.Legible.numeral_of_isFinite .toEven x finite
  have whole (bounded : |q| < 2 ^ 53) : Scalar.isWhole x = true ↔ (wholePart q : ℚ) = q := by
    rw [Scalar.isWhole, toInt_eq exact]
    have named : reading (Scalar.ofInt (wholePart q) : Float) = .exact (wholePart q) :=
      reading_ofInt_of_abs_lt (abs_wholePart_lt bounded)
    constructor
    · intro same
      exact (eq_of_beq_reading exact named same).symm
    · intro same
      rw [same] at named
      exact beq_of_reading exact named
  unfold Json.ofNumber
  rw [numeral, toInt_eq exact]
  by_cases bounded : |q| < 2 ^ 53
  · simp only [small.mpr bounded, decide_true, Bool.and_true, whole bounded, bounded, and_true]
  · simp only [small.not.mpr bounded, decide_false, Bool.and_false, Bool.false_eq_true, if_false,
      bounded, and_false]

/-- A finite number is read back from a document as an equal one, by readers of numbers and as plain
data. -/
theorem Json.exists_number_ofNumber {x : Float} (finite : Scalar.isFinite x = true) :
    ∃ y, (Json.ofNumber x).asNumber? = some y ∧ Value.ofJson (Json.ofNumber x) = .number y ∧
      (y == x) = true := by
  obtain ⟨q, exact⟩ := (isFinite_iff x).mp finite
  rw [ofNumber_eq exact]
  split
  · rename_i whole
    have small : |wholePart q| < 2 ^ 53 := abs_wholePart_lt whole.2
    have named := reading_ofInt_of_abs_lt small
    rw [whole.1] at named
    exact ⟨_, rfl, rfl, beq_of_reading named exact⟩
  · exact ⟨x, rfl, rfl, beq_of_reading exact exact⟩

theorem exists_readAll?_ofNumber {xs : List Float}
    (finite : ∀ x ∈ xs, Scalar.isFinite x = true) :
    ∃ ys, readAll? Json.asNumber? (xs.map .ofNumber) = some ys ∧
      List.Forall₂ (fun y x => (y == x) = true) ys xs := by
  induction xs with
  | nil => exact ⟨[], rfl, .nil⟩
  | cons x xs ih =>
    obtain ⟨y, read, _, same⟩ := Json.exists_number_ofNumber (finite x (List.mem_cons_self ..))
    obtain ⟨ys, later, alike⟩ := ih fun z mem => finite z (List.mem_cons_of_mem _ mem)
    refine ⟨y :: ys, ?_, .cons same alike⟩
    rw [List.map_cons, readAll?, read, later]

/-! ## Plain data -/

namespace Value

theorem beqItems_ofItems_toItems {items : List (Value Float)}
    (each : ∀ v ∈ items, (ofJson v.toJson == v) = true) :
    beqItems (ofItems (toItems items)) items = true := by
  rw [beqItems_iff]
  induction items with
  | nil => exact .nil
  | cons v rest ih =>
    have others : ∀ w ∈ rest, (ofJson w.toJson == w) = true :=
      fun w mem => each w (List.mem_cons_of_mem _ mem)
    exact .cons (each v (List.mem_cons_self ..)) (ih others)

theorem beqMembers_ofMembers_toMembers {members : List (String × Value Float)}
    (each : ∀ m ∈ members, (ofJson m.2.toJson == m.2) = true) :
    beqMembers (ofMembers (toMembers members)) members = true := by
  rw [beqMembers_iff]
  induction members with
  | nil => exact .nil
  | cons m rest ih =>
    exact .cons ⟨rfl, each m (List.mem_cons_self ..)⟩
      (ih fun n mem => each n (List.mem_cons_of_mem _ mem))

theorem Plain.ofJson_toJson {v : Value Float} (plain : v.Plain) :
    (ofJson v.toJson == v) = true := by
  induction plain with
  | null => rfl
  | boolean b => exact beq_boolean.mpr rfl
  | @number x finite =>
    obtain ⟨y, _, read, same⟩ := Json.exists_number_ofNumber finite
    rw [toJson, read]
    exact same
  | string s => exact beq_string.mpr rfl
  | @array items _ ih =>
    rw [toJson, ofJson]
    exact beqItems_ofItems_toItems ih
  | @object members _ ih =>
    rw [toJson, ofJson]
    exact beqMembers_ofMembers_toMembers ih

end Value

/-! ## Paddings and number arrays -/

theorem Padding.ofJson?_arr {items : List (Json Float)} {xs : List Float}
    (read : readAll? Json.asNumber? items = some xs) :
    Padding.ofJson? (.arr items) = ofShorthand? xs := by
  simp only [ofJson?, Json.asNumber?, Json.asItems?, read]

theorem Padding.exists_ofJson?_toJson {p : Padding Float}
    (finite : ∀ x ∈ p.toList, Scalar.isFinite x = true) :
    ∃ q, Padding.ofJson? (Value.padding p).toJson = some q ∧ (q == p) = true := by
  obtain ⟨ys, read, alike⟩ := exists_readAll?_ofNumber finite
  obtain ⟨top, right, bottom, left⟩ := p
  obtain ⟨top', _, sameTop, afterTop, rfl⟩ := List.forall₂_cons_right_iff.mp alike
  obtain ⟨right', _, sameRight, afterRight, rfl⟩ := List.forall₂_cons_right_iff.mp afterTop
  obtain ⟨bottom', _, sameBottom, afterBottom, rfl⟩ := List.forall₂_cons_right_iff.mp afterRight
  obtain ⟨left', _, sameLeft, afterLeft, rfl⟩ := List.forall₂_cons_right_iff.mp afterBottom
  obtain rfl := List.forall₂_nil_right_iff.mp afterLeft
  refine ⟨⟨top', right', bottom', left'⟩, ?_, ?_⟩
  · rw [Value.toJson, ofJson?_arr read]
    rfl
  · change (top' == top && right' == right && bottom' == bottom && left' == left) = true
    rw [sameTop, sameRight, sameBottom, sameLeft]
    rfl

theorem exists_numbers?_toJson {xs : List Float} (finite : ∀ x ∈ xs, Scalar.isFinite x = true) :
    ∃ ys, numbers? (Value.numberArray xs).toJson = some ys ∧ (ys == xs) = true := by
  obtain ⟨ys, read, alike⟩ := exists_readAll?_ofNumber finite
  refine ⟨ys, read, ?_⟩
  clear read finite
  induction alike with
  | nil => rfl
  | cons same _ ih => rw [List.cons_beq_cons, same, ih]; rfl

/-- What is written as a document is read back as an equal value: plain data, however deep it is
nested, as plain data, and paddings and number arrays by their readers. -/
theorem documents_keep_values :
    (∀ v : Value Float, v.Plain → (Value.ofJson v.toJson == v) = true) ∧
    (∀ p : Padding Float, (∀ x ∈ p.toList, Scalar.isFinite x = true) →
      ∃ q, Padding.ofJson? (Value.padding p).toJson = some q ∧ (q == p) = true) ∧
    ∀ xs : List Float, (∀ x ∈ xs, Scalar.isFinite x = true) →
      ∃ ys, numbers? (Value.numberArray xs).toJson = some ys ∧ (ys == xs) = true :=
  ⟨fun _ plain => plain.ofJson_toJson, fun _ finite => Padding.exists_ofJson?_toJson finite,
    fun _ finite => exists_numbers?_toJson finite⟩

/-- A negative zero, a fraction, and whole numbers on both sides of the limit for integers. -/
def mixedNumbers : List Float := [-0.0, 0.5, 9007199254740991, -9007199254740992]

/-- The numbers as plain data inside an object, beside what is no number. -/
def mixedData : Value Float :=
  .object [("numbers", .array (mixedNumbers.map .number)),
    ("others", .array [.null, .boolean true, .string "x"])]

theorem documents_keep_values_of_mixedNumbers :
    (∀ x ∈ mixedNumbers, Scalar.isFinite x = true) ∧ mixedData.Plain ∧
      (Value.ofJson mixedData.toJson == mixedData) = true ∧
      (∃ ys, numbers? (Value.numberArray mixedNumbers).toJson = some ys ∧
        (ys == mixedNumbers) = true) ∧
      ∃ q, Padding.ofJson? (Value.padding ⟨-0.0, 0.5, 0.5, -0.0⟩ : Value Float).toJson = some q ∧
        (q == ⟨-0.0, 0.5, 0.5, -0.0⟩) = true := by
  have finite : ∀ x ∈ mixedNumbers, Scalar.isFinite x = true := by decide +kernel
  have finiteSides : ∀ x ∈ (⟨-0.0, 0.5, 0.5, -0.0⟩ : Padding Float).toList,
      Scalar.isFinite x = true := by decide +kernel
  have numbers : (Value.array (mixedNumbers.map .number)).Plain :=
    .array (List.forall_mem_map.mpr fun x mem => .number (finite x mem))
  have others : (Value.array [.null, .boolean true, .string "x"] : Value Float).Plain :=
    .array (by simp [Value.Plain.null, Value.Plain.boolean, Value.Plain.string])
  have plain : mixedData.Plain := .object (by simp [numbers, others])
  obtain ⟨keeps, keepsPadding, keepsNumbers⟩ := documents_keep_values
  exact ⟨finite, plain, keeps mixedData plain, keepsNumbers mixedNumbers finite,
    keepsPadding _ finiteSides⟩

end MapStyle
