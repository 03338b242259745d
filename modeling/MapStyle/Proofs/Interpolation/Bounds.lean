import MapStyle.Proofs.Interpolation.Search
import MapStyle.Proofs.Typing

/-!
# Look-ups within bounds

Labels that are there, are numbers and do not descend are all that it takes for a look-up to find
the stops that it asks for, whatever the input.
-/

set_option autoImplicit false

namespace MapStyle

variable {ν : Type} [Scalar ν]

/-- Labels hold an input at neither end, so that its place is searched for. -/
structure Searched (labels : List ν) (x : ν) : Prop where
  several : labels.length ≠ 1
  aboveFirst : ∀ first, labels.head? = some first → ¬ x ≤ first
  belowLast : ∀ last, labels.getLast? = some last → ¬ last ≤ x

/-- Labels that are numbers in an order, each with its output, among which every input has its
place: the stops that it selects are there, and where that place is searched for, it is a label with
a next one.  The two are around the input if that is a number. -/
structure InBounds {α : Type} (r : ν → ν → Prop) (stops : List (ν × α)) : Prop where
  filled : stops ≠ []
  numbers : ∀ l ∈ stops.map (·.1), (l == l) = true
  sorted : (stops.map (·.1)).Pairwise r
  selected : ∀ x, (selectStop (stops.map (·.1)) x).InRange stops.length
  found : ∀ x, Searched (stops.map (·.1)) x → ∃ i lower upper,
    stopIndex (stops.map (·.1)) x = i ∧ i + 1 < stops.length ∧
      (stops.map (·.1))[i]? = some lower ∧ (stops.map (·.1))[i + 1]? = some upper ∧
      selectStop (stops.map (·.1)) x = .between i lower upper ∧
      ((x == x) = true → lower ≤ x ∧ x < upper)

variable [Scalar.Ordered ν]

theorem selectStop_of_searched {labels : List ν} {x : ν} (inside : 0 < labels.length)
    (sorted : labels.Pairwise (· ≤ ·)) (numbers : ∀ l ∈ labels, (l == l) = true)
    (searched : Searched labels x) : ∃ lower upper, labels[stopIndex labels x]? = some lower ∧
      labels[stopIndex labels x + 1]? = some upper ∧
      selectStop labels x = .between (stopIndex labels x) lower upper ∧
      ((x == x) = true → lower ≤ x ∧ x < upper) := by
  have notFirst : ¬ x ≤ labels[0] :=
    searched.aboveFirst _ (by rw [List.head?_eq_getElem?, List.getElem?_eq_getElem])
  have notLast : ¬ labels[labels.length - 1] ≤ x :=
    searched.belowLast _ (by rw [List.getLast?_eq_getElem?, List.getElem?_eq_getElem])
  obtain ⟨lower, upper, isLower, isUpper, around⟩ :=
    exists_neighbours sorted numbers inside searched.several notFirst notLast
  refine ⟨lower, upper, isLower, isUpper, ?_, around⟩
  rw [selectStop_eq inside, List.getLast_eq_getElem,
    if_neg (by simp [searched.several, notFirst]), if_neg notLast]
  simp only [isLower, isUpper]

theorem inBounds_of_sorted {α : Type} {r : ν → ν → Prop} {stops : List (ν × α)}
    (ordered : ∀ x y, r x y → x ≤ y) (filled : stops ≠ [])
    (numbers : ∀ l ∈ stops.map (·.1), (l == l) = true) (sorted : (stops.map (·.1)).Pairwise r) :
    InBounds r stops where
  filled := filled
  numbers := numbers
  sorted := sorted
  selected x := by
    have inRange := selectStop_inRange (stops.map (·.1)) x (by simpa using filled)
    rwa [List.length_map] at inRange
  found x searched := by
    have inside : 0 < (stops.map (·.1)).length := by
      rw [List.length_map]
      exact List.length_pos_iff.mpr filled
    obtain ⟨lower, upper, isLower, isUpper, between, around⟩ :=
      selectStop_of_searched inside (sorted.imp (ordered _ _)) numbers searched
    have bound := (List.getElem?_eq_some_iff.mp isUpper).1
    rw [List.length_map] at bound
    exact ⟨_, lower, upper, rfl, bound, isLower, isUpper, between, around⟩

end MapStyle
