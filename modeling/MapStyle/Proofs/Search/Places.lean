import MapStyle.Collation.Engine
import MapStyle.Expr.Eval
import MapStyle.Proofs.Number.Positions
import MapStyle.Proofs.Search.Bytes

/-!
# Places of needles

A search gives the first place of a needle at or after a start.  A start is cut to its integer part.
In text a start before the beginning is the beginning; in an array it counts back from the end.
-/

set_option autoImplicit false

namespace MapStyle

open scoped Scalar
open FloatReading

/-! ## First places -/

/-- The first position at or after a start that has a property, if there is one. -/
inductive FirstFrom (P : Nat → Prop) (start : Nat) : Option Nat → Prop
  | none : (∀ i, start ≤ i → ¬ P i) → FirstFrom P start none
  | some {i : Nat} : start ≤ i → P i → (∀ j, start ≤ j → j < i → ¬ P j) → FirstFrom P start (some i)

namespace FirstFrom

variable {P : Nat → Prop} {start start' : Nat} {place : Option Nat}

theorem congr_start (first : FirstFrom P start place) (same : ∀ i, P i → (start ≤ i ↔ start' ≤ i)) :
    FirstFrom P start' place := by
  cases first with
  | none absent =>
    apply FirstFrom.none
    intro i after holds
    exact absent i ((same i holds).mpr after) holds
  | some after holds before =>
    apply FirstFrom.some ((same _ holds).mp after) holds
    intro j after' earlier holds'
    exact before j ((same j holds').mpr after') earlier holds'

theorem unique {place' : Option Nat} (first : FirstFrom P start place)
    (first' : FirstFrom P start place') : place = place' := by
  cases first with
  | none absent =>
    cases first' with
    | none => rfl
    | some after' holds' => exact absurd holds' (absent _ after')
  | @some i after holds before =>
    cases first' with
    | none absent' => exact absurd holds (absent' _ after)
    | @some i' after' holds' before' =>
      rcases Nat.lt_trichotomy i i' with less | rfl | greater
      · exact absurd holds (before' i after less)
      · rfl
      · exact absurd holds' (before i' after' greater)

theorem of_succ (first : FirstFrom P (start + 1) place) (without : ¬ P start) :
    FirstFrom P start place := by
  apply first.congr_start
  intro i holds
  have : i ≠ start := by
    rintro rfl
    exact without holds
  omega

end FirstFrom

section Words

variable {α : Type} [BEq α] [LawfulBEq α]

theorem firstFrom_findWord (word before rest : List α) :
    FirstFrom (fun i => word <+: (before ++ rest).drop i) before.length
      (findWord word rest before.length) := by
  induction rest generalizing before with
  | nil =>
    by_cases starts : word <+: []
    · rw [findWord_starting starts]
      apply FirstFrom.some (Nat.le_refl _)
      · rwa [List.drop_left]
      · intro j after earlier
        omega
    · have nonempty : word ≠ [] := by
        rintro rfl
        exact starts List.nil_prefix
      rw [findWord, if_neg (by simpa using nonempty)]
      apply FirstFrom.none
      intro i after
      rwa [List.append_nil, List.drop_eq_nil_of_le after]
  | cons a rest ih =>
    by_cases starts : word <+: a :: rest
    · rw [findWord_starting starts]
      apply FirstFrom.some (Nat.le_refl _)
      · rwa [List.drop_left]
      · intro j after earlier
        omega
    · have next := ih (before ++ [a])
      rw [List.append_assoc, List.singleton_append, List.length_append,
        List.length_singleton] at next
      rw [findWord_passing starts]
      apply next.of_succ
      rwa [List.drop_left]

end Words

theorem firstFrom_findIdx? {α : Type} (p : α → Bool) (items : List α) (skip : Nat) :
    FirstFrom (fun i => ∃ a, items[i]? = some a ∧ p a = true) skip
      (((items.drop skip).findIdx? p).map (· + skip)) := by
  cases found : (items.drop skip).findIdx? p with
  | none =>
    rw [List.findIdx?_eq_none_iff] at found
    apply FirstFrom.none
    rintro i after ⟨a, item, holds⟩
    obtain ⟨k, rfl⟩ := Nat.exists_eq_add_of_le after
    rw [← List.getElem?_drop] at item
    have := found a (List.mem_of_getElem? item)
    rw [this] at holds
    cases holds
  | some k =>
    obtain ⟨inside, holds, earlier⟩ := List.findIdx?_eq_some_iff_getElem.mp found
    apply FirstFrom.some (Nat.le_add_left skip k)
    · refine ⟨_, ?_, holds⟩
      rw [Nat.add_comm, ← List.getElem?_drop, List.getElem?_eq_getElem inside]
    · rintro j after before ⟨a, item, holds'⟩
      obtain ⟨l, rfl⟩ := Nat.exists_eq_add_of_le after
      have short : l < k := by omega
      rw [← List.getElem?_drop, List.getElem?_eq_getElem (Nat.lt_trans short inside)] at item
      cases item
      exact earlier l short holds'

/-! ## Starts -/

namespace FloatReading

/-- The position of a start among `n` items: a negative one counts back from the end. -/
def Reading.among (n : Nat) : Reading → Nat
  | .exact q => if 0 ≤ wholePart q then (wholePart q).toNat else (n + wholePart q).toNat
  | r => r.upTo n

theorem upTo_counted_back {n : Nat} (few : n < 2 ^ 53) {x : Float} {i : Int}
    (whole : reading x = .exact i) (negative : i < 0) :
    (reading (Scalar.ofInt n + x)).upTo (2 ^ 64 - 1) = (n + i).toNat := by
  have length := reading_ofInt few
  by_cases inside : 0 ≤ n + i
  · obtain ⟨k, sum⟩ := Int.eq_ofNat_of_zero_le inside
    have value : (n : ℚ) + i = k := by exact_mod_cast sum
    have fits : Representable ((n : ℚ) + i) := by
      rw [value]
      exact representable_natural (by omega)
    rw [reading_add length whole fits, value, Reading.upTo, ← Int.cast_natCast k, wholePart_intCast]
    omega
  · -- a sum below zero may be rounded, and stays at or below zero
    have short : (n : ℚ) + i < 0 := by exact_mod_cast not_le.mp inside
    rw [Reading.upTo_of_le (reading_add_le length whole (Nat.cast_nonneg n) short)]
    omega

theorem startIndex_eq {n : Nat} (few : n < 2 ^ 53) (x : Float) :
    min (startIndex n x) n = min ((reading x).among n) n := by
  have cut := reading_trunc x
  have below := lt_iff_reading (Scalar.trunc x) (Scalar.ofInt 0)
  have nan := isNaN_iff x
  rw [reading_zero, cut] at below
  unfold startIndex
  dsimp only
  change min (if Scalar.isNaN x then 0 else
    if Scalar.trunc x < Scalar.ofInt 0 then
      Scalar.toIndex (Scalar.max (Scalar.ofInt n + Scalar.trunc x) (Scalar.ofInt 0))
    else Scalar.toIndex (Scalar.trunc x)) n = _
  rw [toIndex_max, toIndex_eq, cut]
  cases exact : reading x with
  | nan =>
    rw [if_pos (nan.mpr exact)]
    rfl
  | infinite s =>
    rw [exact] at nan below cut
    rw [if_neg (by simp [nan])]
    cases s with
    | negative =>
      rw [if_pos (below.mpr (by simp [Reading.trunc])),
        reading_add_infinite (reading_ofInt few) cut]
      rfl
    | positive =>
      rw [if_neg (below.not.mpr (by simp [Reading.trunc]))]
      change min (2 ^ 64 - 1) n = min n n
      omega
  | exact q =>
    rw [exact] at nan below cut
    have below : Scalar.trunc x < Scalar.ofInt 0 ↔ wholePart q < 0 := by
      rw [below, Reading.trunc, Reading.exact_le_exact, Reading.exact_le_exact, Int.cast_nonpos,
        Int.cast_nonneg_iff]
      omega
    rw [if_neg (by simp [nan])]
    change min _ n =
      min (if 0 ≤ wholePart q then (wholePart q).toNat else (n + wholePart q).toNat) n
    by_cases negative : wholePart q < 0
    · rw [if_pos (below.mpr negative), if_neg (Int.not_le.mpr negative),
        upTo_counted_back few cut negative]
    · rw [if_neg (below.not.mpr negative), if_pos (not_lt.mp negative), Reading.trunc, Reading.upTo,
        wholePart_intCast]
      omega

end FloatReading

/-! ## Needles -/

section Needles

variable {ν : Type} [Scalar ν]

/-- Whether a needle is at a position: the characters from there on start with its text, or the item
there equals it. -/
def Value.OccursAt (needle : Value ν) : Value ν → Nat → Prop
  | .string s, i => (searchText needle).toList <+: s.toList.drop i
  | .array items, i => ∃ item, items[i]? = some item ∧ (item == needle) = true
  | _, _ => False

/-- The number that a start is; what is no number is the beginning. -/
def Value.asStart (v : Value ν) : ν := v.asNumber?.getD 0

end Needles

def Value.searchedFrom (start : Float) : Value Float → Nat
  | .string s => (reading start).upTo s.length
  | .array items => (reading start).among items.length
  | _ => 0

/-- What is searched.  The characters of a text are counted in a word.  No memory holds `2 ^ 53`
items, and up to there the length of an array is a number without rounding. -/
inductive Value.IsHaystack : Value Float → Prop
  | text {s : String} : s.length < 2 ^ 64 → IsHaystack (.string s)
  | items {items : List (Value Float)} : items.length < 2 ^ 53 → IsHaystack (.array items)

theorem firstFrom_indexInText {text : String} (sized : text.length < 2 ^ 64) (word : String)
    (start : Float) : FirstFrom (fun i => word.toList <+: text.toList.drop i)
      ((reading start).upTo text.length) (indexInText text word start) := by
  have first := firstFrom_findWord word.toList
    (text.toList.take (Scalar.toIndex (Scalar.max start (Scalar.ofInt 0))))
    (text.toList.drop (Scalar.toIndex (Scalar.max start (Scalar.ofInt 0))))
  have begin : min (Scalar.toIndex (Scalar.max start (Scalar.ofInt 0))) text.length =
      (reading start).upTo text.length := by
    rw [toIndex_max, Reading.min_upTo (by omega)]
  rw [List.take_append_drop, List.length_take, String.length_toList, begin] at first
  rw [indexInText_eq, String.length_toList]
  change FirstFrom _ _ (findWord word.toList
    (text.toList.drop (Scalar.toIndex (Scalar.max start (Scalar.ofInt 0))))
    (min (Scalar.toIndex (Scalar.max start (Scalar.ofInt 0))) text.length))
  rw [begin]
  exact first

theorem firstFrom_indexInItems {items : List (Value Float)} (sized : items.length < 2 ^ 53)
    (needle : Value Float) (start : Float) :
    FirstFrom (fun i => ∃ item, items[i]? = some item ∧ (item == needle) = true)
      ((reading start).among items.length) (indexInItems items needle start) := by
  have same := startIndex_eq sized start
  have first := firstFrom_findIdx? (· == needle) items (startIndex items.length start)
  apply first.congr_start
  rintro i ⟨item, inside, _⟩
  have : i < items.length := (List.getElem?_eq_some_iff.mp inside).1
  omega

theorem Value.indexOf_eq {haystack : Value Float} (sized : haystack.IsHaystack)
    (needle : Value Float) (start : Float) : ∃ place : Option Nat,
      needle.indexOf haystack start = .ok (.number (Scalar.ofInt (place.elim (-1) fun i => i))) ∧
        FirstFrom (needle.OccursAt haystack) (haystack.searchedFrom start) place := by
  have number (place : Option Nat) :
      (place.elim (-Scalar.ofInt 1) fun i => Scalar.ofInt i : Float) =
        Scalar.ofInt (place.elim (-1) fun i => i) := by
    cases place with
    | none => rfl
    | some i => rfl
  cases sized with
  | @text s sized =>
    refine ⟨_, ?_, firstFrom_indexInText sized (searchText needle) start⟩
    rw [← number]
    rfl
  | @items items sized =>
    refine ⟨_, ?_, firstFrom_indexInItems sized needle start⟩
    rw [← number]
    rfl

variable {needle haystack : Expr Float} {start : Option (Expr Float)} {env : Env Float}
  {v h f : Value Float}

/-- The value of a search is the first place of the needle at or after the start, and minus one
without any. -/
theorem Expr.eval_indexOf (needleDone : needle.eval env = .ok v) (searchable : v.isNeedle = true)
    (haystackDone : haystack.eval env = .ok h) (sized : h.IsHaystack)
    (startDone : evalOption env start = .ok f) : ∃ place : Option Nat,
      (Expr.indexOf needle haystack start).eval env =
          .ok (.number (Scalar.ofInt (place.elim (-1) fun i => i))) ∧
        FirstFrom (v.OccursAt h) (h.searchedFrom f.asStart) place := by
  obtain ⟨place, found, first⟩ := Value.indexOf_eq sized v f.asStart
  refine ⟨place, ?_, first⟩
  simp only [Expr.eval, needleDone, haystackDone, searchable, if_true, startDone]
  exact found

/-- A character of four bytes counts as one. -/
theorem Expr.eval_indexOf_of_emoji :
    (Expr.indexOf (.literal (.string "b") .string) (.literal (.string "🙂ab") .string) none).eval
      (Env.blank : Env Float) = .ok (.number (Scalar.ofInt 2)) := by
  obtain ⟨place, found, first⟩ := @Expr.eval_indexOf (.literal (.string "b") .string)
    (.literal (.string "🙂ab") .string) none Env.blank _ _ _ rfl rfl rfl (.text (by decide)) rfl
  have beginning : Value.searchedFrom (Value.asStart .null) (.string "🙂ab") = 0 := by
    change (reading (Scalar.ofInt 0)).upTo "🙂ab".length = 0
    rw [reading_zero]
    exact Reading.upTo_of_le (Reading.exact_le_exact.mpr (le_refl 0)) _
  rw [beginning] at first
  have second :
      FirstFrom (Value.OccursAt (.string "b") (.string "🙂ab" : Value Float)) 0 (some 2) := by
    apply FirstFrom.some (Nat.zero_le 2)
    · change "b".toList <+: "🙂ab".toList.drop 2
      decide
    · intro j _ earlier
      change ¬ "b".toList <+: "🙂ab".toList.drop j
      match j with
      | 0 => decide
      | 1 => decide
  rw [found, first.unique second]
  rfl

end MapStyle
