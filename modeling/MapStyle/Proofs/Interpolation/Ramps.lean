import MapStyle.Proofs.Number.InReals
import MapStyle.Proofs.StopFunction.ZoomStops

/-!
# Ramps

Numbers at some labels, and the numbers between them along a curve.  In exact arithmetic the place
of an input on a curve rises from zero at the lower of two labels to one at the upper one, and so
the numbers in between rise or fall from the one to the other.  From there it follows for the whole
line, with the ends held, that a ramp stays between the numbers around an input, passes through the
number at every label, and never falls where the numbers do not.
-/

set_option autoImplicit false

namespace MapStyle

open scoped Scalar
open Scalar.InReals (value value_zero value_one value_sub value_add value_mul value_div
  value_injective)

variable {ν : Type} [Scalar ν]

/-! ## Places on a curve -/

/-- Places between two labels that start at zero, stay between zero and one and do not fall. -/
structure Places (place : ν → ν → ν → ν) : Prop where
  start : ∀ x lower upper, (x == lower) = true → place x lower upper = 0
  bounded : ∀ x lower upper, lower < upper → lower ≤ x → x ≤ upper →
    0 ≤ place x lower upper ∧ place x lower upper ≤ 1
  monotone : ∀ x y lower upper, lower < upper → x ≤ y → place x lower upper ≤ place y lower upper

variable [Scalar.InReals ν] {base lower upper x y : ν}

theorem value_lt_of_lt (lt : x < y) : value x < value y := (Scalar.InReals.lt_iff x y).mp lt

theorem value_le_of_le (le : x ≤ y) : value x ≤ value y := (Scalar.InReals.le_iff x y).mp le

theorem difference_beq_zero (lt : lower < upper) : ¬ (upper - lower == 0) = true := by
  intro same
  have zero : upper - lower = 0 := (Scalar.InReals.beq_iff _ _).mp same
  have values := congrArg value zero
  rw [value_sub, value_zero] at values
  linarith [value_lt_of_lt lt]

theorem exponentialFactor_one (lt : lower < upper) (x : ν) :
    exponentialFactor 1 x lower upper = (x - lower) / (upper - lower) := by
  simp only [exponentialFactor]
  rw [if_neg (difference_beq_zero lt), if_pos (Scalar.InReals.beq_self 1)]

theorem exponentialFactor_of_ne_one (lt : lower < upper) (notOne : base ≠ 1) (x : ν) :
    exponentialFactor base x lower upper =
      (Scalar.pow base (x - lower) - 1) / (Scalar.pow base (upper - lower) - 1) := by
  have curved : ¬ (base == 1) = true := fun same => notOne ((Scalar.InReals.beq_iff _ _).mp same)
  simp only [exponentialFactor]
  rw [if_neg (difference_beq_zero lt), if_neg curved]

section Powers

variable (powers : Scalar.PowersOrdered ν) (positive : 0 < base)
include powers positive

/-- Where powers ascend the greatest exponent has a power above one, and where they descend it has
one below one: in both cases the quotient ascends. -/
theorem exponentialFactor_lt (lt : lower < upper) (before : x < y) :
    exponentialFactor base x lower upper < exponentialFactor base y lower upper := by
  have length : value (0 : ν) < value (upper - lower) := by
    rw [value_sub, value_zero]
    linarith [value_lt_of_lt lt]
  have progress : value (x - lower) < value (y - lower) := by
    rw [value_sub, value_sub]
    linarith [value_lt_of_lt before]
  refine (Scalar.InReals.lt_iff _ _).mpr ?_
  by_cases one : base = 1
  · subst one
    rw [exponentialFactor_one lt, exponentialFactor_one lt, value_div, value_div]
    exact div_lt_div_of_pos_right progress (value_zero (ν := ν) ▸ length)
  · rw [exponentialFactor_of_ne_one lt one, exponentialFactor_of_ne_one lt one, value_div,
      value_div, value_sub, value_sub, value_sub, value_one]
    have longer : (0 : ν) < upper - lower := (Scalar.InReals.lt_iff _ _).mpr length
    have further : x - lower < y - lower := (Scalar.InReals.lt_iff _ _).mpr progress
    have unit : value (Scalar.pow base (0 : ν)) = 1 := by
      rw [powers.zero base positive, value_one]
    rcases powers.strict base positive one with ascend | descend
    · have above := value_lt_of_lt (ascend _ _ longer)
      have rises := value_lt_of_lt (ascend _ _ further)
      exact div_lt_div_of_pos_right (by linarith) (by linarith)
    · have below := value_lt_of_lt (descend _ _ longer)
      have falls := value_lt_of_lt (descend _ _ further)
      exact (div_lt_div_right_of_neg (by linarith)).mpr (by linarith)

theorem exponentialFactor_monotone (lt : lower < upper) (le : x ≤ y) :
    exponentialFactor base x lower upper ≤ exponentialFactor base y lower upper := by
  by_cases before : x < y
  · exact Scalar.le_of_lt (exponentialFactor_lt powers positive lt before)
  · have same : value x = value y := by
      have notBefore : ¬ value x < value y := fun less =>
        before ((Scalar.InReals.lt_iff x y).mpr less)
      exact (value_le_of_le le).antisymm (not_lt.mp notBefore)
    rw [value_injective same]
    exact Scalar.InReals.le_refl _

theorem exponentialFactor_lower (lower upper : ν) : exponentialFactor base lower lower upper = 0 :=
  exponentialFactor_self (Or.inr (powers.zero base positive)) (Scalar.InReals.beq_self lower) upper

theorem exponentialFactor_upper (lt : lower < upper) :
    exponentialFactor base upper lower upper = 1 := by
  -- the factor at the upper label is a quotient of a number by itself, which is not zero as the
  -- factor at the lower label is below it
  have below := value_lt_of_lt (exponentialFactor_lt powers positive lt lt)
  rw [exponentialFactor_lower powers positive, value_zero] at below
  refine value_injective ?_
  rw [value_one]
  by_cases one : base = 1
  · subst one
    rw [exponentialFactor_one lt, value_div] at below ⊢
    exact div_self (left_ne_zero_of_mul (ne_of_gt below))
  · rw [exponentialFactor_of_ne_one lt one, value_div] at below ⊢
    exact div_self (left_ne_zero_of_mul (ne_of_gt below))

theorem exponentialFactor_bounded (lt : lower < upper) (above : lower ≤ x) (below : x ≤ upper) :
    0 ≤ exponentialFactor base x lower upper ∧ exponentialFactor base x lower upper ≤ 1 := by
  have fromStart := exponentialFactor_monotone powers positive lt above
  have toEnd := exponentialFactor_monotone powers positive lt below
  rw [exponentialFactor_lower powers positive] at fromStart
  rw [exponentialFactor_upper powers positive lt] at toEnd
  exact ⟨fromStart, toEnd⟩

theorem places_exponentialFactor : Places (exponentialFactor base) where
  start _ _ upper same := exponentialFactor_self (Or.inr (powers.zero base positive)) same upper
  bounded _ _ _ lt above below := exponentialFactor_bounded powers positive lt above below
  monotone _ _ _ _ lt le := exponentialFactor_monotone powers positive lt le

end Powers

/-- The factor between two labels rises from zero at the lower one to one at the upper one, on a
straight line if the base is one. -/
structure RisesBetween (base lower upper : ν) : Prop where
  atLower : exponentialFactor base lower lower upper = 0
  atUpper : exponentialFactor base upper lower upper = 1
  bounded : ∀ x, lower ≤ x → x ≤ upper →
    0 ≤ exponentialFactor base x lower upper ∧ exponentialFactor base x lower upper ≤ 1
  monotone : ∀ x y, x ≤ y →
    exponentialFactor base x lower upper ≤ exponentialFactor base y lower upper
  straight : base = 1 → ∀ x,
    exponentialFactor base x lower upper = (x - lower) / (upper - lower)

theorem risesBetween (powers : Scalar.PowersOrdered ν) (positive : 0 < base) (lt : lower < upper) :
    RisesBetween base lower upper where
  atLower := exponentialFactor_lower powers positive lower upper
  atUpper := exponentialFactor_upper powers positive lt
  bounded _ above below := exponentialFactor_bounded powers positive lt above below
  monotone _ _ le := exponentialFactor_monotone powers positive lt le
  straight one x := one ▸ exponentialFactor_one lt x

theorem zero_lt_one : (0 : ν) < 1 := by
  refine (Scalar.InReals.lt_iff _ _).mpr ?_
  rw [value_zero, value_one]
  norm_num

theorem places_zero : Places fun _ _ _ : ν => (0 : ν) where
  start _ _ _ _ := rfl
  bounded _ _ _ _ _ _ := ⟨Scalar.InReals.le_refl 0, Scalar.le_of_lt zero_lt_one⟩
  monotone _ _ _ _ _ _ := Scalar.InReals.le_refl 0

/-! ## Blends of two numbers -/

section Blends

variable {a b s t : ν}

theorem value_lerp (a b t : ν) : value (lerp a b t) = value a + (value b - value a) * value t := by
  rw [lerp, value_add, value_mul, value_sub]

theorem lerp_monotone (ends : a ≤ b) (le : s ≤ t) : lerp a b s ≤ lerp a b t := by
  refine (Scalar.InReals.le_iff _ _).mpr ?_
  rw [value_lerp, value_lerp]
  have length : 0 ≤ value b - value a := sub_nonneg.mpr (value_le_of_le ends)
  have part := mul_le_mul_of_nonneg_left (value_le_of_le le) length
  linarith

theorem lerp_ascending (ends : a ≤ b) (start : 0 ≤ t) (stop : t ≤ 1) :
    a ≤ lerp a b t ∧ lerp a b t ≤ b := by
  have fromStart := value_le_of_le (lerp_monotone ends start)
  have toEnd := value_le_of_le (lerp_monotone ends stop)
  rw [value_lerp a b 0, value_zero] at fromStart
  rw [value_lerp a b 1, value_one] at toEnd
  constructor
  · refine (Scalar.InReals.le_iff _ _).mpr ?_
    linarith
  · refine (Scalar.InReals.le_iff _ _).mpr ?_
    linarith

theorem lerp_descending (ends : b ≤ a) (start : 0 ≤ t) (stop : t ≤ 1) :
    b ≤ lerp a b t ∧ lerp a b t ≤ a := by
  have start := value_le_of_le start
  have stop := value_le_of_le stop
  rw [value_zero] at start
  rw [value_one] at stop
  have length : 0 ≤ value a - value b := sub_nonneg.mpr (value_le_of_le ends)
  have fromEnd := mul_nonneg length (sub_nonneg.mpr stop)
  have fromStart := mul_nonneg length start
  constructor
  · refine (Scalar.InReals.le_iff _ _).mpr ?_
    rw [value_lerp]
    linarith
  · refine (Scalar.InReals.le_iff _ _).mpr ?_
    rw [value_lerp]
    linarith

end Blends

/-! ## Choices among labels -/

/-- What is chosen among labels that do not descend: the first, the last, or the two around the
input. -/
inductive Chosen (labels : List ν) (x : ν) : Selection ν → Prop
  | first {l : ν} : labels[0]? = some l → x ≤ l → Chosen labels x (.only 0)
  | last {f l : ν} : labels[0]? = some f → ¬ x ≤ f → labels[labels.length - 1]? = some l → l ≤ x →
    Chosen labels x (.only (labels.length - 1))
  | between {f lower upper : ν} {i : Nat} : labels[0]? = some f → ¬ x ≤ f →
    labels[i]? = some lower → labels[i + 1]? = some upper → lower ≤ x → x < upper →
    Chosen labels x (.between i lower upper)

theorem chosen_selectStop {labels : List ν} (sorted : labels.Pairwise (· ≤ ·))
    (nonempty : labels ≠ []) (x : ν) : Chosen labels x (selectStop labels x) := by
  have inside : 0 < labels.length := List.length_pos_iff.mpr nonempty
  have isFirst := List.getElem?_eq_getElem inside
  have isLast := List.getElem?_eq_getElem (Nat.sub_lt inside Nat.one_pos)
  rw [selectStop_eq inside, List.getLast_eq_getElem]
  by_cases atFirst : x ≤ labels[0]
  · rw [if_pos (Or.inr atFirst)]
    exact .first isFirst atFirst
  have above : labels[0] ≤ x := Scalar.le_of_lt
    (Scalar.lt_of_not_le (Scalar.InReals.le_refl _) (Scalar.InReals.le_refl _) atFirst)
  by_cases single : labels.length = 1
  · rw [if_pos (Or.inl single)]
    have place : labels.length - 1 = 0 := by omega
    have held := Chosen.last isFirst atFirst (place.symm ▸ isFirst) above
    rwa [place] at held
  rw [if_neg (by simp [single, atFirst])]
  by_cases atLast : labels[labels.length - 1] ≤ x
  · rw [if_pos atLast]
    exact .last isFirst atFirst isLast atLast
  · obtain ⟨lower, upper, isLower, isUpper, around⟩ := exists_neighbours sorted
      (fun l _ => Scalar.InReals.beq_self l) inside single atFirst atLast
    obtain ⟨below, beyond⟩ := around (Scalar.InReals.beq_self x)
    rw [if_neg atLast, isLower, isUpper]
    exact .between isFirst atFirst isLower isUpper below beyond

theorem le_of_index_le {xs : List ν} (sorted : xs.Pairwise (· ≤ ·)) {i j : Nat} (le : i ≤ j)
    {a b : ν} (isA : xs[i]? = some a) (isB : xs[j]? = some b) : a ≤ b := by
  obtain ⟨insideA, rfl⟩ := List.getElem?_eq_some_iff.mp isA
  obtain ⟨insideB, rfl⟩ := List.getElem?_eq_some_iff.mp isB
  rcases Nat.eq_or_lt_of_le le with same | before
  · subst same
    exact Scalar.InReals.le_refl _
  · exact List.pairwise_iff_getElem.mp sorted i j insideA insideB before

/-! ## Ramps -/

section Definitions

omit [Scalar.InReals ν]

def outputAt (stops : List (ν × ν)) (i : Nat) : ν := (stops[i]?.map (·.2)).getD 0

/-- The number that a choice among stops makes: that of one stop, or a blend of two by the place of
the input between them. -/
def Selection.height (place : ν → ν → ν → ν) (stops : List (ν × ν)) (x : ν) : Selection ν → ν
  | .only i => outputAt stops i
  | .between i lower upper =>
    lerp (outputAt stops i) (outputAt stops (i + 1)) (place x lower upper)

def rampAt (place : ν → ν → ν → ν) (stops : List (ν × ν)) (x : ν) : ν :=
  (selectStop (stops.map (·.1)) x).height place stops x

theorem outputAt_eq {stops : List (ν × ν)} {i : Nat} {s : ν × ν} (found : stops[i]? = some s) :
    outputAt stops i = s.2 := by
  rw [outputAt, found]
  rfl

theorem getElem?_outputs {stops : List (ν × ν)} {i : Nat} (inside : i < stops.length) :
    (stops.map (·.2))[i]? = some (outputAt stops i) := by
  have found := List.getElem?_eq_getElem inside
  rw [List.getElem?_map, found, outputAt_eq found]
  rfl

omit [Scalar ν] in
theorem exists_stop_of_label {stops : List (ν × ν)} {i : Nat} {l : ν}
    (found : (stops.map (·.1))[i]? = some l) : ∃ s, stops[i]? = some s ∧ s.1 = l := by
  rw [List.getElem?_map] at found
  exact Option.map_eq_some_iff.mp found

end Definitions

/-- A number between those of the two stops around an input, and outside of all stops that of the
end. -/
inductive Bracketed (stops : List (ν × ν)) (x : ν) : ν → Prop
  | first {s : ν × ν} : stops.head? = some s → x ≤ s.1 → Bracketed stops x s.2
  | last {s : ν × ν} : stops.getLast? = some s → s.1 ≤ x → Bracketed stops x s.2
  | between {i : Nat} {a b : ν × ν} {y : ν} : stops[i]? = some a → stops[i + 1]? = some b →
    a.1 ≤ x → x < b.1 → (a.2 ≤ y ∧ y ≤ b.2 ∨ b.2 ≤ y ∧ y ≤ a.2) → Bracketed stops x y

/-- Numbers for all inputs that stay between those of the stops around an input, pass through that
of every stop if no two stops are at one label, and do not fall if those of the stops do not. -/
structure Ramp (stops : List (ν × ν)) (ramp : ν → ν) : Prop where
  bracketed : ∀ x, Bracketed stops x (ramp x)
  through : (stops.map (·.1)).Pairwise (· < ·) → ∀ s ∈ stops, ramp s.1 = s.2
  monotone : (stops.map (·.2)).Pairwise (· ≤ ·) → ∀ x y, x ≤ y → ramp x ≤ ramp y

section Ramps

variable {place : ν → ν → ν → ν} {stops : List (ν × ν)} {i j : Nat}

section

variable (places : Places place) (sorted : (stops.map (·.1)).Pairwise (· ≤ ·))
  (nonempty : stops ≠ [])
include places sorted nonempty

theorem rampAt_bracketed (x : ν) : Bracketed stops x (rampAt place stops x) := by
  have chosen := chosen_selectStop sorted (by simpa using nonempty) x
  unfold rampAt
  generalize selectStop (stops.map (·.1)) x = selected at chosen ⊢
  cases chosen with
  | first isFirst below =>
    obtain ⟨s, found, rfl⟩ := exists_stop_of_label isFirst
    rw [Selection.height, outputAt_eq found]
    exact .first (List.head?_eq_getElem?.trans found) below
  | last _ _ isLast above =>
    obtain ⟨s, found, rfl⟩ := exists_stop_of_label isLast
    rw [Selection.height, outputAt_eq found]
    rw [List.length_map] at found
    exact .last (List.getLast?_eq_getElem?.trans found) above
  | between _ _ isLower isUpper above below =>
    obtain ⟨a, foundA, rfl⟩ := exists_stop_of_label isLower
    obtain ⟨b, foundB, rfl⟩ := exists_stop_of_label isUpper
    have length : a.1 < b.1 := Scalar.lt_of_le_of_lt above below
    obtain ⟨start, stop⟩ := places.bounded x a.1 b.1 length above (Scalar.le_of_lt below)
    refine .between foundA foundB above below ?_
    rw [Selection.height, outputAt_eq foundA, outputAt_eq foundB]
    rcases Scalar.Ordered.le_total a.2 b.2 (Scalar.InReals.le_refl _)
      (Scalar.InReals.le_refl _) with ascend | descend
    · exact Or.inl (lerp_ascending ascend start stop)
    · exact Or.inr (lerp_descending descend start stop)

omit sorted in
theorem rampAt_mixes : Mixes (stops.map (·.1)) (stops.map (·.2))
    (fun a b x lower upper => lerp a b (place x lower upper))
    (fun x => some (rampAt place stops x)) := by
  have inRange (x : ν) := selectStop_inRange (stops.map (·.1)) x (by simpa using nonempty)
  refine ⟨by simp, ?_, ?_, ?_⟩
  · intro x i selected
    have inside : i < stops.length := by simpa [selected, Selection.InRange] using inRange x
    rw [rampAt, selected, getElem?_outputs inside]
    rfl
  · intro x i lower upper a b selected isA isB
    have inside : i + 1 < stops.length := by simpa [selected, Selection.InRange] using inRange x
    rw [getElem?_outputs inside] at isB
    rw [getElem?_outputs (Nat.lt_of_succ_lt inside)] at isA
    cases isA
    cases isB
    rw [rampAt, selected]
    rfl
  · intro a _ b x lower upper same
    rw [places.start x lower upper same, lerp_zero]

omit sorted in
theorem rampAt_through (ascending : (stops.map (·.1)).Pairwise (· < ·)) {s : ν × ν}
    (mem : s ∈ stops) : rampAt place stops s.1 = s.2 := by
  obtain ⟨i, found⟩ := List.getElem?_of_mem mem
  have label : (stops.map (·.1))[i]? = some s.1 := by rw [List.getElem?_map, found]; rfl
  have output : (stops.map (·.2))[i]? = some s.2 := by rw [List.getElem?_map, found]; rfl
  have held := (rampAt_mixes places nonempty).value_at_label ascending label
    (Scalar.InReals.le_refl _) output
  exact Option.some.inj held

section Ordered

variable (ordered : (stops.map (·.2)).Pairwise (· ≤ ·))
include ordered

omit places nonempty sorted in
theorem outputAt_le (le : i ≤ j) (inside : j < stops.length) :
    outputAt stops i ≤ outputAt stops j :=
  le_of_index_le ordered le (getElem?_outputs (Nat.lt_of_le_of_lt le inside))
    (getElem?_outputs inside)

omit nonempty sorted in
theorem height_between {lower upper : ν} (isUpper : (stops.map (·.1))[i + 1]? = some upper)
    (above : lower ≤ x) (below : x < upper) :
    i + 1 < stops.length ∧
      outputAt stops i ≤ (Selection.between i lower upper).height place stops x ∧
      (Selection.between i lower upper).height place stops x ≤ outputAt stops (i + 1) := by
  have inside : i + 1 < stops.length := by
    simpa using (List.getElem?_eq_some_iff.mp isUpper).1
  have length : lower < upper := Scalar.lt_of_le_of_lt above below
  obtain ⟨start, stop⟩ := places.bounded x lower upper length above (Scalar.le_of_lt below)
  have ends := outputAt_le ordered (Nat.le_succ i) inside
  exact ⟨inside, lerp_ascending ends start stop⟩

theorem rampAt_within (x : ν) :
    outputAt stops 0 ≤ rampAt place stops x ∧
      rampAt place stops x ≤ outputAt stops (stops.length - 1) := by
  have filled : 0 < stops.length := List.length_pos_iff.mpr nonempty
  have lastInside : stops.length - 1 < stops.length := Nat.sub_lt filled Nat.one_pos
  have whole := outputAt_le ordered (Nat.zero_le (stops.length - 1)) lastInside
  have chosen := chosen_selectStop sorted (by simpa using nonempty) x
  unfold rampAt
  generalize selectStop (stops.map (·.1)) x = selected at chosen ⊢
  cases chosen with
  | first => exact ⟨Scalar.InReals.le_refl _, whole⟩
  | last =>
    rw [List.length_map]
    exact ⟨whole, Scalar.InReals.le_refl _⟩
  | between _ _ _ isUpper above below =>
    obtain ⟨inside, fromLower, toUpper⟩ := height_between places ordered isUpper above below
    have before := outputAt_le ordered (Nat.zero_le _) (Nat.lt_of_succ_lt inside)
    have after := outputAt_le ordered (Nat.le_sub_one_of_lt inside) lastInside
    exact ⟨Scalar.le_trans before fromLower, Scalar.le_trans toUpper after⟩

/-- Of two inputs in order the stops chosen are in order too; at the same two stops the place
rises, and from two stops to two later ones the output of a stop lies between. -/
theorem rampAt_monotone (le : x ≤ y) : rampAt place stops x ≤ rampAt place stops y := by
  have chosenX := chosen_selectStop sorted (by simpa using nonempty) x
  have chosenY := chosen_selectStop sorted (by simpa using nonempty) y
  obtain ⟨fromFirst, _⟩ := rampAt_within places sorted nonempty ordered y
  obtain ⟨_, toLast⟩ := rampAt_within places sorted nonempty ordered x
  unfold rampAt at fromFirst toLast ⊢
  generalize selectStop (stops.map (·.1)) x = atX at chosenX toLast ⊢
  generalize selectStop (stops.map (·.1)) y = atY at chosenY fromFirst ⊢
  have notFirst {f g : ν} (isF : (stops.map (·.1))[0]? = some f) (aboveF : ¬ x ≤ f)
      (isG : (stops.map (·.1))[0]? = some g) (belowG : y ≤ g) : False := by
    obtain rfl := Option.some.inj (isF.symm.trans isG)
    exact aboveF (Scalar.le_trans le belowG)
  cases chosenX with
  | first => exact fromFirst
  | last isFirst aboveFirst isLast atLast =>
    cases chosenY with
    | first isFirst' atFirst => exact (notFirst isFirst aboveFirst isFirst' atFirst).elim
    | last => exact Scalar.InReals.le_refl _
    | between _ _ _ isUpper _ below =>
      have inside := (List.getElem?_eq_some_iff.mp isUpper).1
      have atEnd := le_of_index_le sorted (Nat.le_sub_one_of_lt inside) isUpper isLast
      have beyond := Scalar.le_trans atEnd (Scalar.le_trans atLast le)
      exact absurd beyond (Scalar.not_le_of_lt below)
  | @between _ lower upper i isFirst aboveFirst isLower isUpper above below =>
    cases chosenY with
    | first isFirst' atFirst => exact (notFirst isFirst aboveFirst isFirst' atFirst).elim
    | last =>
      rw [List.length_map]
      exact toLast
    | @between _ lower' upper' j _ _ isLower' isUpper' above' below' =>
      obtain ⟨inside, _, toUpper⟩ := height_between places ordered isUpper above below
      obtain ⟨inside', fromLower, _⟩ := height_between places ordered isUpper' above' below'
      rcases Nat.lt_trichotomy i j with before | same | after
      · have between := outputAt_le ordered before (Nat.lt_of_succ_lt inside')
        exact Scalar.le_trans toUpper (Scalar.le_trans between fromLower)
      · subst same
        obtain rfl := Option.some.inj (isLower.symm.trans isLower')
        obtain rfl := Option.some.inj (isUpper.symm.trans isUpper')
        have length : lower < upper := Scalar.lt_of_le_of_lt above below
        have ends := outputAt_le ordered (Nat.le_succ i) inside
        exact lerp_monotone ends (places.monotone x y lower upper length le)
      · have back := le_of_index_le sorted after isUpper' isLower
        have beyond := Scalar.le_trans back (Scalar.le_trans above le)
        exact absurd beyond (Scalar.not_le_of_lt below')

end Ordered

theorem ramp_rampAt : Ramp stops (rampAt place stops) where
  bracketed := rampAt_bracketed places sorted nonempty
  through ascending _ mem := rampAt_through places nonempty ascending mem
  monotone ordered _ _ le := rampAt_monotone places sorted nonempty ordered le

end

end Ramps

end MapStyle
