import MapStyle.Proofs.Json.Reading
import MapStyle.Proofs.StopFunction.Exponential
import MapStyle.Proofs.StopFunction.Labels

/-!
# Functions of intervals

An interval function holds the output of the last stop at or below its input, and that of the first
stop where there is none.  The one exception is an input at a first label that is repeated: the
stops are not searched for it, so the first of them decides.
-/

set_option autoImplicit false

namespace MapStyle

variable {ν : Type} [Scalar ν]

/-! ## The place that an input selects -/

/-- The place of the stop that is selected, and of the lower one of two. -/
def Selection.index : Selection ν → Nat
  | .only i => i
  | .between i _ _ => i

section Selected

variable [Scalar.Ordered ν] {labels : List ν} {x l : ν} {i : Nat}

omit [Scalar.Ordered ν] in
theorem selectStop_of_le_first (first : labels.head? = some l) (le : x ≤ l) :
    selectStop labels x = .only 0 := by
  cases labels with
  | nil => cases first
  | cons head rest =>
    cases Option.some.inj first
    rw [selectStop_eq (by simp)]
    exact if_pos (Or.inr le)

/-- Among labels that do not descend an input selects the last one at or below it, unless the first
label holds it. -/
theorem index_selectStop (sorted : labels.Pairwise (· ≤ ·)) (found : labels[i]? = some l)
    (below : l ≤ x) (last : ∀ upper, labels[i + 1]? = some upper → ¬ upper ≤ x)
    (notHeld : i = 0 ∨ ∀ first, labels.head? = some first → ¬ x ≤ first) :
    (selectStop labels x).index = i := by
  obtain ⟨inside, rfl⟩ := List.getElem?_eq_some_iff.mp found
  rw [selectStop_eq (by omega), List.getLast_eq_getElem]
  by_cases atFirst : labels.length = 1 ∨ x ≤ labels[0]
  · rw [if_pos atFirst]
    rcases notHeld with first | notHeld
    · exact first.symm
    · rcases atFirst with single | le
      · simp only [Selection.index]
        omega
      · exact absurd le (notHeld _ (by rw [List.head?_eq_getElem?, List.getElem?_eq_getElem]))
  · rw [if_neg atFirst]
    have atLast (le : labels[labels.length - 1] ≤ x) : labels.length - 1 = i := by
      rcases Nat.lt_or_ge (i + 1) labels.length with next | atEnd
      · have notNext := last _ (List.getElem?_eq_getElem next)
        rcases Nat.eq_or_lt_of_le (show i + 1 ≤ labels.length - 1 by omega) with same | less
        · simp only [same] at notNext
          exact absurd le notNext
        · have order := List.pairwise_iff_getElem.mp sorted (i + 1) (labels.length - 1) next
            (by omega) less
          exact absurd (Scalar.le_trans order le) notNext
      · omega
    by_cases aboveLast : labels[labels.length - 1] ≤ x
    · rw [if_pos aboveLast]
      exact atLast aboveLast
    · rw [if_neg aboveLast, stopIndex_eq sorted found below last, found]
      cases next : labels[i + 1]? with
      | some upper => rfl
      | none =>
        have atEnd : labels.length ≤ i + 1 := List.getElem?_eq_none_iff.mp next
        have isLast : labels.length - 1 = i := by omega
        simp only [isLast] at aboveLast
        exact absurd below aboveLast

end Selected

/-! ## The stop that decides -/

namespace Stop

def AtOrBelow (stop : Stop ν) (x : ν) : Prop := ∃ l, stop.key.asNumber? = some l ∧ l ≤ x

def AtOrAbove (stop : Stop ν) (x : ν) : Prop := ∃ l, stop.key.asNumber? = some l ∧ x ≤ l

instance (stop : Stop ν) (x : ν) : Decidable (stop.AtOrBelow x) :=
  decidable_of_iff ((stop.key.asNumber?.any fun l => decide (l ≤ x)) = true)
    (by simp [AtOrBelow, Option.any_eq_true])

end Stop

/-- The first two stops are both at an input. -/
def FunctionParameters.RepeatsFirst (p : FunctionParameters ν) (x : ν) : Prop :=
  ∃ first second rest, p.stops = first :: second :: rest ∧ first.AtOrAbove x ∧ second.AtOrBelow x

/-- The output of a function is the one that a stop names. -/
def CompiledFunction.AnswersWith (s : PropertySpec ν) (f : CompiledFunction ν) (env : Env ν)
    (stop : Stop ν) : Prop :=
  ∃ v, s.parseValue? stop.output = some v ∧ f.evaluate env = some v

namespace StopFunction

theorem atNumber_of_interval {f : StopFunction ν} (interval : f.type = .interval)
    (values : List (ν × Value ν)) (x : ν) :
    f.atNumber values x = values[(selectStop (values.map (·.1)) x).index]?.map (·.2) := by
  unfold atNumber
  cases selectStop (values.map (·.1)) x with
  | only i => rfl
  | between i lower upper => simp [interval, Selection.index]

end StopFunction

namespace StopTable

variable {s : PropertySpec ν} {stops : List (Stop ν)} {values : List (ν × Value ν)} {stop : Stop ν}
  {entry : ν × Value ν} {x : ν}

theorem Labels.atOrBelow_iff (labels : Labels s stop entry) : stop.AtOrBelow x ↔ entry.1 ≤ x := by
  constructor
  · intro below
    obtain ⟨l, number, le⟩ := below
    cases Option.some.inj (labels.1.symm.trans number)
    exact le
  · intro le
    exact ⟨entry.1, labels.1, le⟩

theorem Labels.atOrAbove_iff (labels : Labels s stop entry) : stop.AtOrAbove x ↔ x ≤ entry.1 := by
  constructor
  · intro above
    obtain ⟨l, number, le⟩ := above
    cases Option.some.inj (labels.1.symm.trans number)
    exact le
  · intro le
    exact ⟨entry.1, labels.1, le⟩

theorem exists_label (entries : List.Forall₂ (Labels s) stops values) {before after : List (Stop ν)}
    (split : stops = before ++ stop :: after) :
    ∃ entry, values[before.length]? = some entry ∧ Labels s stop entry ∧
      ∀ upper, values[before.length + 1]? = some upper → ∃ later ∈ after, Labels s later upper := by
  subst split
  induction before generalizing values with
  | nil =>
    cases entries with
    | @cons _ entry _ rest labels later =>
      refine ⟨entry, rfl, labels, ?_⟩
      intro upper isNext
      exact exists_of_forall₂ later (List.mem_of_getElem? isNext)
  | cons head before ih =>
    cases entries with
    | cons _ later => exact ih later

theorem exists_first (entries : List.Forall₂ (Labels s) stops values) (filled : values ≠ []) :
    ∃ first rest entry, stops = first :: rest ∧ values.head? = some entry ∧
      Labels s first entry := by
  cases entries with
  | nil => contradiction
  | @cons first entry rest _ labels _ => exact ⟨first, rest, entry, rfl, rfl, labels⟩

variable [Scalar.Ordered ν]

theorem atOrBelow_of_later (entries : List.Forall₂ (Labels s) stops values)
    (sorted : (values.map (·.1)).Pairwise (· ≤ ·)) :
    stops.Pairwise fun earlier later => later.AtOrBelow x → earlier.AtOrBelow x := by
  induction entries with
  | nil => exact .nil
  | cons labels later ih =>
    obtain ⟨first, sorted⟩ := List.pairwise_cons.mp sorted
    refine List.pairwise_cons.mpr ⟨?_, ih sorted⟩
    intro stop mem below
    obtain ⟨entry, entryMem, number, parsed⟩ := exists_of_forall₂ later.flip mem
    have labels' : Labels s stop entry := ⟨number, parsed⟩
    have le := first entry.1 (List.mem_map_of_mem entryMem)
    exact labels.atOrBelow_iff.mpr (Scalar.le_trans le (labels'.atOrBelow_iff.mp below))

theorem selected_of_last (entries : List.Forall₂ (Labels s) stops values)
    (sorted : (values.map (·.1)).Pairwise (· ≤ ·)) {before after : List (Stop ν)}
    (split : stops = before ++ stop :: after) (below : stop.AtOrBelow x)
    (last : ∀ later ∈ after, ¬ later.AtOrBelow x)
    (notHeld : before = [] ∨ ∀ first, stops.head? = some first → ¬ first.AtOrAbove x) :
    ∃ entry, values[(selectStop (values.map (·.1)) x).index]? = some entry ∧
      Labels s stop entry := by
  obtain ⟨entry, found, labels, next⟩ := exists_label entries split
  have isLabel : (values.map (·.1))[before.length]? = some entry.1 := by
    rw [List.getElem?_map, found]
    rfl
  have notNext : ∀ upper, (values.map (·.1))[before.length + 1]? = some upper → ¬ upper ≤ x := by
    intro upper isNext le
    rw [List.getElem?_map] at isNext
    obtain ⟨entry, isEntry, rfl⟩ := Option.map_eq_some_iff.mp isNext
    obtain ⟨later, mem, labels⟩ := next entry isEntry
    exact last later mem (labels.atOrBelow_iff.mpr le)
  have index := index_selectStop sorted isLabel (labels.atOrBelow_iff.mp below) notNext (by
    rcases notHeld with empty | notHeld
    · exact Or.inl (by rw [empty]; rfl)
    · right
      intro l isFirst le
      cases entries with
      | nil => cases isFirst
      | cons labels _ =>
        cases Option.some.inj isFirst
        exact notHeld _ rfl (labels.atOrAbove_iff.mpr le))
  rw [index]
  exact ⟨entry, found, labels⟩

end StopTable

namespace CompiledFunction

variable {p : FunctionParameters ν} {s : PropertySpec ν} {f : CompiledFunction ν} {env : Env ν}
  {x : ν}

theorem input?_of_number? (number : env.number? p.property = some x) :
    input? p env = some (.number x) := by
  unfold input?
  cases named : p.property with
  | none =>
    rw [named] at number
    exact congrArg (Option.map Value.number) number
  | some name =>
    rw [named] at number
    obtain ⟨j, found, number⟩ := Option.bind_eq_some_iff.mp number
    simp only [found, Option.map_some, Value.ofJson_of_asNumber? number]

variable [Scalar.Ordered ν]

/-- Where the first stops are not both at the input, a stop after the first that is at or below it
shows that the first is not at or above it. -/
theorem not_held_of_not_repeatsFirst {values : List (ν × Value ν)}
    (entries : List.Forall₂ (StopTable.Labels s) p.stops values)
    (sorted : (values.map (·.1)).Pairwise (· ≤ ·)) (notRepeated : ¬ p.RepeatsFirst x)
    {before after : List (Stop ν)} {stop : Stop ν} (split : p.stops = before ++ stop :: after)
    (below : stop.AtOrBelow x) :
    before = [] ∨ ∀ first, p.stops.head? = some first → ¬ first.AtOrAbove x := by
  have descends := StopTable.atOrBelow_of_later (x := x) entries sorted
  cases before with
  | nil => exact Or.inl rfl
  | cons first before =>
    right
    intro first' isFirst above
    rw [split] at isFirst
    cases Option.some.inj isFirst
    rw [split] at descends
    have later := (List.pairwise_cons.mp descends).2
    apply notRepeated
    cases before with
    | nil => exact ⟨first, stop, after, split, above, below⟩
    | cons second before =>
      have first_of := (List.pairwise_cons.mp later).1
      exact ⟨first, second, _, split, above, first_of stop (by simp) below⟩

/-- An interval function that is not composite answers a number with the last stop at or below it,
and with the first stop where there is none.  Where the first two stops are both at the number, it
answers with the first. -/
theorem evaluate_interval (compiled : compile p s = .ok f) (simple : p.isComposite = false)
    (interval : ruleOf p s = .ok .interval) (free : StopsNaNFree p.stops)
    (number : env.number? p.property = some x) (isNumber : (x == x) = true) :
    ∃ first rest, p.stops = first :: rest ∧
      (p.RepeatsFirst x → f.AnswersWith s env first) ∧
      (¬ p.RepeatsFirst x →
        (∀ before stop after, p.stops = before ++ stop :: after → stop.AtOrBelow x →
          (∀ later ∈ after, ¬ later.AtOrBelow x) → f.AnswersWith s env stop) ∧
        ((∀ stop ∈ p.stops, ¬ stop.AtOrBelow x) → f.AnswersWith s env first)) := by
  obtain ⟨type, space, ruled, _, made⟩ := compileSimple_of_compile compiled simple
  cases Except.ok.inj (interval.symm.trans ruled)
  obtain ⟨g, made, evaluated⟩ := evaluate_eq_of_compileSimple made env
  rw [input?_of_number? number] at evaluated
  obtain ⟨table, default, tableMade, _, rfl⟩ := StopFunction.eq_of_make made
  obtain ⟨values, rfl⟩ := StopTable.exists_numeric_of_make tableMade (Or.inr rfl)
  obtain ⟨filled, entries, numbers, sorted⟩ := StopTable.ascending_of_make free tableMade
  obtain ⟨first, rest, head, shape, isHead, labels⟩ := StopTable.exists_first entries filled
  have answers {stop : Stop ν} {entry : ν × Value ν} (labels : StopTable.Labels s stop entry)
      (found : values[(selectStop (values.map (·.1)) x).index]? = some entry) :
      f.AnswersWith s env stop := by
    refine ⟨entry.2, labels.2, evaluated.trans ?_⟩
    exact (StopFunction.atNumber_of_interval rfl values x).trans (by rw [found]; rfl)
  have held (le : x ≤ head.1) : f.AnswersWith s env first := by
    have isFirst : (values.map (·.1)).head? = some head.1 := by rw [List.head?_map, isHead]; rfl
    refine answers labels ?_
    rw [selectStop_of_le_first isFirst le, ← isHead]
    exact List.head?_eq_getElem?.symm
  refine ⟨first, rest, shape, ?_, ?_⟩
  · intro repeated
    obtain ⟨_, second, _, again, above, _⟩ := repeated
    cases shape.symm.trans again
    exact held (labels.atOrAbove_iff.mp above)
  · intro notRepeated
    constructor
    · intro before stop after split below last
      have notHeld := not_held_of_not_repeatsFirst entries sorted notRepeated split below
      obtain ⟨entry, found, labels⟩ :=
        StopTable.selected_of_last entries sorted split below last notHeld
      exact answers labels found
    · intro none
      have notBelow : ¬ head.1 ≤ x := by
        intro le
        exact none first (by simp [shape]) (labels.atOrBelow_iff.mpr le)
      have headNumber : (head.1 == head.1) = true :=
        numbers head.1 (List.mem_map_of_mem (List.mem_of_mem_head? isHead))
      have above : x < head.1 := Scalar.lt_of_not_le (Scalar.le_of_beq isNumber)
        (Scalar.le_of_beq headNumber) notBelow
      exact held (Scalar.le_of_lt above)

def repeatedSteps : FunctionParameters Float where
  typeName := some "interval"
  property := some "p"
  base := none
  colorSpace := none
  default := none
  stops := [⟨.int 5, .str "a"⟩, ⟨.int 5, .str "b"⟩, ⟨.int 10, .str "c"⟩]

theorem repeatedSteps_free : StopsNaNFree repeatedSteps.stops :=
  List.forall_mem_cons.mpr ⟨Json.nanFree_int 5, List.forall_mem_cons.mpr ⟨Json.nanFree_int 5,
    List.forall_mem_singleton.mpr (Json.nanFree_int 10)⟩⟩

theorem evaluate_interval_after_repeated_label :
    ∃ f, compile repeatedSteps (.ofType "string") = .ok f ∧
      f.evaluate ⟨⟨none, none⟩, some ⟨none, none, [("p", .int 7)]⟩⟩ = some (.string "b") := by
  obtain ⟨f, compiled⟩ : ∃ f, compile repeatedSteps (.ofType "string") = .ok f := ⟨_, rfl⟩
  have number : Env.number? ⟨⟨none, none⟩, some ⟨none, none, [("p", .int 7)]⟩⟩
      repeatedSteps.property = some (Scalar.ofInt 7 : Float) := rfl
  obtain ⟨first, rest, shape, _, decides⟩ :=
    evaluate_interval compiled rfl rfl repeatedSteps_free number (Scalar.isNumber_ofInt 7)
  have notRepeated : ¬ repeatedSteps.RepeatsFirst (Scalar.ofInt 7 : Float) := by
    intro repeated
    obtain ⟨_, _, _, again, ⟨l, number, above⟩, _⟩ := repeated
    cases again
    cases Option.some.inj number
    exact absurd above (by decide +kernel)
  have last : ∀ later ∈ [(⟨.int 10, .str "c"⟩ : Stop Float)],
      ¬ later.AtOrBelow (Scalar.ofInt 7) := List.forall_mem_singleton.mpr (by decide +kernel)
  obtain ⟨v, parsed, evaluated⟩ := (decides notRepeated).1 [⟨.int 5, .str "a"⟩]
    ⟨.int 5, .str "b"⟩ _ rfl (by decide +kernel) last
  cases Option.some.inj parsed
  exact ⟨f, compiled, evaluated⟩

/-- At a first label that is repeated the first stop answers, although the second is at the input
too and is the last one that is. -/
theorem first_of_repeated_labels_answers :
    ∃ f, compile repeatedSteps (.ofType "string") = .ok f ∧
      f.evaluate ⟨⟨none, none⟩, some ⟨none, none, [("p", .int 5)]⟩⟩ = some (.string "a") ∧
      Stop.AtOrBelow (⟨.int 5, .str "b"⟩ : Stop Float) (Scalar.ofInt 5) ∧
      ¬ Stop.AtOrBelow (⟨.int 10, .str "c"⟩ : Stop Float) (Scalar.ofInt 5) :=
  ⟨_, rfl, rfl, by decide +kernel, by decide +kernel⟩

end CompiledFunction

end MapStyle
