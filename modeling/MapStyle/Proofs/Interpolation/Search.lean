import MapStyle.Interpolation.Stops
import MapStyle.Proofs.Number.Order

/-!
# Finding stops

Halving counts the items that pass, and so finds the last label at or below an input among labels
that do not descend.  At one of its own labels an input selects that label's stop: the stop alone at
either end, and the stop with the next one in between.  From there up to the next label it selects
the two.
-/

set_option autoImplicit false

namespace MapStyle

section Counting

variable {α : Type} {passes : α → Bool} {before after : List α}

theorem countPassing_short (n : Nat) (pass : ∀ a ∈ before, passes a = true)
    (fail : ∀ a ∈ after, passes a = false) (short : (before ++ after).length ≤ 1) :
    countPassing passes n (before ++ after) = before.length := by
  match before, after with
  | [], [] => simp [countPassing]
  | [], [a] => simp [countPassing, fail a]
  | [a], [] => simp [countPassing, pass a]
  | [], _ :: _ :: _ | [_], _ :: _ | _ :: _ :: _, _ =>
    simp only [List.length_append, List.length_cons, List.length_nil] at short
    omega

theorem countPassing_step (n : Nat) {items : List α} (long : 2 ≤ items.length) :
    countPassing passes (n + 1) items =
      if (items.drop (items.length / 2)).head?.any passes then
        items.length / 2 + countPassing passes n (items.drop (items.length / 2))
      else countPassing passes n (items.take (items.length - items.length / 2)) := by
  match items, long with
  | a :: b :: rest, _ => rfl

/-- Where all items that pass come before all that fail, halving counts those that pass. -/
theorem countPassing_append (n : Nat) (pass : ∀ a ∈ before, passes a = true)
    (fail : ∀ a ∈ after, passes a = false) (enough : (before ++ after).length ≤ n + 1) :
    countPassing passes n (before ++ after) = before.length := by
  induction n generalizing before after with
  | zero => exact countPassing_short 0 pass fail enough
  | succ n ih =>
    by_cases short : (before ++ after).length ≤ 1
    · exact countPassing_short (n + 1) pass fail short
    · rw [countPassing_step n (by omega)]
      generalize half_eq : (before ++ after).length / 2 = half
      rw [List.length_append] at enough short half_eq
      by_cases inside : half < before.length
      · have head : ((before ++ after).drop half).head?.any passes = true := by
          rw [List.head?_drop, List.getElem?_append_left inside, List.getElem?_eq_getElem inside]
          exact pass _ (List.getElem_mem inside)
        rw [if_pos head, List.drop_append_of_le_length (Nat.le_of_lt inside), ih]
        · rw [List.length_drop]
          omega
        · exact fun a mem => pass a (List.mem_of_mem_drop mem)
        · exact fail
        · rw [List.length_append, List.length_drop]
          omega
      · have head : ((before ++ after).drop half).head?.any passes = false := by
          rw [List.head?_drop, List.getElem?_append_right (by omega),
            List.getElem?_eq_getElem (by omega)]
          exact fail _ (List.getElem_mem _)
        rw [head, if_neg (by decide), List.take_append,
          List.take_of_length_le (by rw [List.length_append]; omega), ih]
        · exact pass
        · exact fun a mem => fail a (List.mem_of_mem_take mem)
        · rw [List.length_append, List.length_take, List.length_append]
          omega

end Counting

variable {ν : Type} [Scalar ν] [Scalar.Ordered ν] {labels : List ν} {x l : ν} {i : Nat}

/-- Among labels that do not descend the search finds the last one at or below the input. -/
theorem stopIndex_eq (sorted : labels.Pairwise (· ≤ ·)) (found : labels[i]? = some l)
    (below : l ≤ x) (last : ∀ upper, labels[i + 1]? = some upper → ¬ upper ≤ x) :
    stopIndex labels x = i := by
  obtain ⟨inside, rfl⟩ := List.getElem?_eq_some_iff.mp found
  have pass : ∀ a ∈ labels.take (i + 1), decide (a ≤ x) = true := by
    intro a mem
    obtain ⟨j, lt, rfl⟩ := List.mem_take_iff_getElem.mp mem
    rcases Nat.lt_or_ge j i with before | _
    · have le := List.pairwise_iff_getElem.mp sorted j i (by omega) inside before
      exact decide_eq_true (Scalar.le_trans le below)
    · obtain rfl : j = i := by omega
      exact decide_eq_true below
  have fail : ∀ a ∈ labels.drop (i + 1), decide (a ≤ x) = false := by
    intro a mem
    obtain ⟨j, lt, rfl⟩ := List.mem_drop_iff_getElem.mp mem
    have notBelow := last _ (List.getElem?_eq_getElem (by omega))
    refine decide_eq_false fun le => notBelow ?_
    rcases Nat.eq_zero_or_pos j with rfl | positive
    · exact le
    · have le' := List.pairwise_iff_getElem.mp sorted (i + 1) (i + 1 + j) (by omega) (by omega)
        (by omega)
      exact Scalar.le_trans le' le
  have count := countPassing_append labels.length pass fail
    (by rw [List.take_append_drop]; omega)
  rw [List.take_append_drop, List.length_take] at count
  rw [stopIndex, count]
  omega

omit [Scalar.Ordered ν] in
theorem selectStop_eq (inside : 0 < labels.length) :
    selectStop labels x =
      if labels.length = 1 ∨ x ≤ labels[0] then .only 0
      else if labels.getLast (List.ne_nil_of_length_pos inside) ≤ x then .only (labels.length - 1)
      else
        match labels[stopIndex labels x]?, labels[stopIndex labels x + 1]? with
        | some lower, some upper => .between (stopIndex labels x) lower upper
        | _, _ => .only 0 := by
  have head : labels.head? = some labels[0] := by
    rw [List.head?_eq_getElem?, List.getElem?_eq_getElem]
  have last := List.getLast?_eq_some_getLast (List.ne_nil_of_length_pos inside)
  simp only [selectStop, head, last]
  by_cases held : labels.length = 1 ∨ x ≤ labels[0]
  · exact (if_pos (by simpa using held)).trans (if_pos held).symm
  · exact (if_neg (by simpa using held)).trans (if_neg held).symm

/-! ## Inputs that reach the search -/

omit [Scalar.Ordered ν] in
theorem exists_last_le {first : ν} {rest : List ν} (below : first ≤ x) :
    ∃ i l, (first :: rest)[i]? = some l ∧ l ≤ x ∧
      ∀ upper, (first :: rest)[i + 1]? = some upper → ¬ upper ≤ x := by
  induction rest generalizing first with
  | nil => exact ⟨0, first, rfl, below, by simp⟩
  | cons second rest ih =>
    by_cases next : second ≤ x
    · obtain ⟨i, l, found, le, last⟩ := ih next
      exact ⟨i + 1, l, found, le, last⟩
    · refine ⟨0, first, rfl, below, ?_⟩
      intro upper isNext
      obtain rfl := Option.some.inj isNext
      exact next

omit [Scalar.Ordered ν] in
theorem stopIndex_of_none (none : ∀ l ∈ labels, ¬ l ≤ x) : stopIndex labels x = 0 := by
  have fail : ∀ l ∈ labels, decide (l ≤ x) = false := fun l mem => decide_eq_false (none l mem)
  have count : countPassing (fun l => l ≤ x) labels.length ([] ++ labels) = 0 :=
    countPassing_append _ (List.forall_mem_nil _) fail (Nat.le_succ _)
  rw [List.nil_append] at count
  rw [stopIndex, count]

/-- Among numbers that do not descend, an input that is held at neither end lies between the label
that the search finds and the next one; one that is no number is sent to the first two. -/
theorem exists_neighbours (sorted : labels.Pairwise (· ≤ ·))
    (numbers : ∀ l ∈ labels, (l == l) = true) (inside : 0 < labels.length)
    (several : labels.length ≠ 1) (notFirst : ¬ x ≤ labels[0])
    (notLast : ¬ labels[labels.length - 1] ≤ x) :
    ∃ lower upper, labels[stopIndex labels x]? = some lower ∧
      labels[stopIndex labels x + 1]? = some upper ∧ ((x == x) = true → lower ≤ x ∧ x < upper) := by
  have self (i : Nat) (bound : i < labels.length) : labels[i] ≤ labels[i] :=
    Scalar.le_of_beq (numbers _ (List.getElem_mem bound))
  by_cases number : (x == x) = true
  · have this : x ≤ x := Scalar.le_of_beq number
    have above : labels[0] ≤ x :=
      Scalar.le_of_lt (Scalar.lt_of_not_le (self 0 inside) this notFirst)
    obtain ⟨i, l, found, below, last⟩ :
        ∃ i l, labels[i]? = some l ∧ l ≤ x ∧
          ∀ upper, labels[i + 1]? = some upper → ¬ upper ≤ x := by
      cases labels with
      | nil => cases inside
      | cons first rest => exact exists_last_le above
    have index := stopIndex_eq sorted found below last
    obtain ⟨bound, rfl⟩ := List.getElem?_eq_some_iff.mp found
    have next : i + 1 < labels.length := by
      rcases Nat.lt_or_ge (i + 1) labels.length with next | atEnd
      · exact next
      · obtain rfl : i = labels.length - 1 := by omega
        exact absurd below notLast
    have isNext := List.getElem?_eq_getElem next
    rw [index]
    refine ⟨_, _, found, isNext, fun _ => ⟨below, ?_⟩⟩
    exact Scalar.lt_of_not_le this (self _ next) (last _ isNext)
  · have none : ∀ l ∈ labels, ¬ l ≤ x := by
      intro l mem le
      exact number (Scalar.beq_self_of_le le)
    rw [stopIndex_of_none none]
    refine ⟨labels[0], labels[1], List.getElem?_eq_getElem inside,
      List.getElem?_eq_getElem (by omega), ?_⟩
    intro isNumber
    exact absurd isNumber number

/-! ## Inputs at labels and between them -/

/-- At a label of strictly ascending labels, an input selects the stop of that label: alone at
either end, and with the next one in between. -/
theorem selectStop_at_label (ascending : labels.Pairwise (· < ·)) (found : labels[i]? = some l)
    (same : (x == l) = true) :
    selectStop labels x =
      if i = 0 then .only 0
      else
        match labels[i + 1]? with
        | none => .only i
        | some upper => .between i l upper := by
  have before := List.pairwise_iff_getElem.mp ascending
  have sorted : labels.Pairwise (· ≤ ·) := ascending.imp Scalar.le_of_lt
  have upward : x ≤ l := Scalar.le_of_beq same
  have downward : l ≤ x := Scalar.le_of_beq (Scalar.beq_symm same)
  obtain ⟨inside, rfl⟩ := List.getElem?_eq_some_iff.mp found
  rw [selectStop_eq (by omega), List.getLast_eq_getElem]
  by_cases first : i = 0
  · subst first
    simp [upward]
  · have lt : labels[0] < labels[i] := before 0 i (by omega) inside (by omega)
    have several : labels.length ≠ 1 := by omega
    have above : ¬ x ≤ labels[0] := fun le => Scalar.not_le_of_lt lt (Scalar.le_trans downward le)
    rw [if_neg first, if_neg (by simp [several, above])]
    cases next : labels[i + 1]? with
    | none =>
      have atEnd : labels.length ≤ i + 1 := List.getElem?_eq_none_iff.mp next
      obtain rfl : i = labels.length - 1 := by omega
      rw [if_pos downward]
    | some upper =>
      obtain ⟨nextInside, rfl⟩ := List.getElem?_eq_some_iff.mp next
      have ltNext : labels[i] < labels[i + 1] := before i (i + 1) inside nextInside (by omega)
      have ltLast : labels[i] < labels[labels.length - 1] :=
        before i (labels.length - 1) inside (by omega) (by omega)
      have belowNext : ¬ labels[i + 1] ≤ x := fun le =>
        Scalar.not_le_of_lt ltNext (Scalar.le_trans le upward)
      have belowLast : ¬ labels[labels.length - 1] ≤ x := fun le =>
        Scalar.not_le_of_lt ltLast (Scalar.le_trans le upward)
      have index : stopIndex labels x = i := by
        refine stopIndex_eq sorted found downward ?_
        rintro upper isNext
        obtain rfl := Option.some.inj (next.symm.trans isNext)
        exact belowNext
      simp only [if_neg belowLast, index, List.getElem?_eq_getElem inside, next]

/-- From a label of strictly ascending labels up to the next one, an input selects the two stops; at
the first label it selects the first stop alone. -/
theorem selectStop_of_between {u : ν} (ascending : labels.Pairwise (· < ·))
    (lower : labels[i]? = some l) (upper : labels[i + 1]? = some u) (above : l ≤ x)
    (below : x < u) :
    selectStop labels x = .between i l u ∨ (i = 0 ∧ x ≤ l) ∧ selectStop labels x = .only 0 := by
  have before := List.pairwise_iff_getElem.mp ascending
  have sorted : labels.Pairwise (· ≤ ·) := ascending.imp Scalar.le_of_lt
  have index : stopIndex labels x = i := by
    refine stopIndex_eq sorted lower above ?_
    rintro next isNext
    obtain rfl := Option.some.inj (upper.symm.trans isNext)
    exact Scalar.not_le_of_lt below
  obtain ⟨inside, rfl⟩ := List.getElem?_eq_some_iff.mp lower
  obtain ⟨nextInside, rfl⟩ := List.getElem?_eq_some_iff.mp upper
  have several : labels.length ≠ 1 := by omega
  have belowLast : ¬ labels[labels.length - 1] ≤ x := by
    rcases Nat.eq_or_lt_of_le (show i + 1 ≤ labels.length - 1 by omega) with same | less
    · simp only [← same]
      exact Scalar.not_le_of_lt below
    · have lt := before (i + 1) (labels.length - 1) nextInside (by omega) less
      exact fun le => Scalar.not_le_of_lt (Scalar.lt_trans below lt) le
  rw [selectStop_eq (by omega), List.getLast_eq_getElem]
  by_cases atFirst : x ≤ labels[0]
  · right
    cases i with
    | zero => exact ⟨⟨rfl, atFirst⟩, by simp [atFirst]⟩
    | succ i =>
      have lt := before 0 (i + 1) (by omega) inside (by omega)
      exact absurd (Scalar.le_trans above atFirst) (Scalar.not_le_of_lt lt)
  · left
    rw [if_neg (by simp [several, atFirst]), if_neg belowLast]
    simp only [index, lower, upper]

end MapStyle
