import Mathlib.Algebra.Field.Rat
import Mathlib.Algebra.GroupWithZero.Units.Basic
import Mathlib.Tactic.Ring
import MapStyle.Number.Text

/-!
# What a written numeral names

A numeral names a rational number.  Its text, in whatever layout, reads back as a numeral of the
same number; so two numerals of one text have one sign and name one number.
-/

set_option autoImplicit false

namespace MapStyle

def Decimal.value (d : Decimal) : ℚ := d.digits * 10 ^ d.exponent

def Numeral.value? : Numeral → Option ℚ
  | .finite negative d => some (if negative then -d.value else d.value)
  | _ => none

theorem digitsValue_eq (ds : List Char) : digitsValue ds = Nat.ofDigitChars 10 ds 0 := rfl

theorem digitsValue_append (ds es : List Char) :
    digitsValue (ds ++ es) = 10 ^ es.length * digitsValue ds + digitsValue es := by
  rw [digitsValue_eq, Nat.ofDigitChars_append, Nat.ofDigitChars_eq_ofDigitChars_zero]
  rfl

theorem digitsValue_zeros (n : Nat) : digitsValue (List.replicate n '0') = 0 := by
  rw [digitsValue_eq, Nat.ofDigitChars_replicate_zero, Nat.mul_zero]

theorem digitsValue_toDigits (n : Nat) : digitsValue (Nat.toDigits 10 n) = n :=
  Nat.ofDigitChars_ten_toDigits

abbrev Digits (cs : List Char) : Prop := ∀ c ∈ cs, c.isDigit = true

theorem digits_toDigits (n : Nat) : Digits (Nat.toDigits 10 n) := by
  intro c mem
  exact Nat.isDigit_of_mem_toDigits (by decide) (by decide) mem

theorem digits_zeros (n : Nat) : Digits (List.replicate n '0') := by
  intro c mem
  rw [List.eq_of_mem_replicate mem]
  decide

theorem digits_zero : Digits ['0'] := digits_zeros 1

theorem spanDigits_append {ds rest : List Char} (digits : Digits ds)
    (stops : ∀ c ∈ rest.head?, c.isDigit = false) : spanDigits (ds ++ rest) = (ds, rest) := by
  unfold spanDigits
  rw [List.takeWhile_append_of_pos digits, List.dropWhile_append_of_pos digits]
  cases rest with
  | nil => simp
  | cons c cs =>
    have stop := stops c rfl
    simp [stop]

theorem spanDigits_all {ds : List Char} (digits : Digits ds) : spanDigits ds = (ds, []) := by
  have split : spanDigits (ds ++ []) = (ds, []) := spanDigits_append digits (by simp)
  rwa [List.append_nil] at split

/-- The characters of written numbers. -/
def isNumberSymbol (c : Char) : Bool := c.isDigit || c = '.' || c = 'e' || c = '+' || c = '-'

theorem toNat_of_isNumberSymbol {c : Char} (symbol : isNumberSymbol c = true) :
    (48 ≤ c.toNat ∧ c.toNat ≤ 57) ∨ c.toNat = 46 ∨ c.toNat = 101 ∨ c.toNat = 43 ∨ c.toNat = 45 := by
  simp only [isNumberSymbol, Bool.or_eq_true, decide_eq_true_eq, or_assoc] at symbol
  rcases symbol with digit | rfl | rfl | rfl | rfl
  · exact Or.inl (Char.isDigit_iff_toNat.mp digit)
  all_goals decide

theorem toLower_of_isNumberSymbol {c : Char} (symbol : isNumberSymbol c = true) :
    c.toLower = c := by
  refine dif_neg ?_
  rintro ⟨atLeast, atMost⟩
  have low : 65 ≤ c.toNat := atLeast
  have high : c.toNat ≤ 90 := atMost
  have codes := toNat_of_isNumberSymbol symbol
  omega

theorem Digits.symbols {cs : List Char} (digits : Digits cs) :
    ∀ c ∈ cs, isNumberSymbol c = true := by
  intro c mem
  simp [isNumberSymbol, digits c mem]

namespace Decimal

/-- A text stands for a magnitude: it starts with a digit and reads as the same number. -/
structure WrittenAs (cs : List Char) (d : Decimal) : Prop where
  starts : ∃ c ∈ cs.head?, c.isDigit = true
  symbols : ∀ c ∈ cs, isNumberSymbol c = true
  reads : ∃ read, ofText? cs = some read ∧ read.value = d.value

variable {d : Decimal} {whole middle fraction rest : List Char} {e : Int}

/-- Digits, a fraction and a power stand for what they name together. -/
theorem writtenAs_append (digits : Digits whole) (nonempty : whole ≠ [])
    (stops : ∀ c ∈ middle.head?, c.isDigit = false)
    (symbols : ∀ c ∈ middle, isNumberSymbol c = true)
    (fractional : spanFraction middle = (fraction, rest)) (power : exponent? rest = some (e, []))
    (named : (ofParts whole fraction e).value = d.value) : WrittenAs (whole ++ middle) d where
  starts := by
    cases whole with
    | nil => exact absurd rfl nonempty
    | cons c cs => exact ⟨c, rfl, digits c List.mem_cons_self⟩
  symbols c mem := (List.mem_append.mp mem).elim (digits.symbols c) (symbols c)
  reads := by
    refine ⟨_, ?_, named⟩
    unfold ofText?
    rw [spanDigits_append digits stops]
    simp only [fractional, power, List.isEmpty_iff, nonempty, Bool.and_eq_true, false_and, if_false]

theorem writtenAs_whole (digits : Digits whole) (nonempty : whole ≠ [])
    (named : (ofParts whole [] 0).value = d.value) : WrittenAs whole d := by
  have written : WrittenAs (whole ++ []) d :=
    writtenAs_append digits nonempty (by simp) (by simp) rfl rfl named
  rwa [List.append_nil] at written

theorem spanFraction_point (digits : Digits fraction)
    (stops : ∀ c ∈ rest.head?, c.isDigit = false) :
    spanFraction ('.' :: fraction ++ rest) = (fraction, rest) :=
  spanDigits_append digits stops

theorem writtenAs_point (digits : Digits whole) (nonempty : whole ≠ []) (more : Digits fraction)
    (named : (ofParts whole fraction 0).value = d.value) :
    WrittenAs (whole ++ '.' :: fraction) d := by
  have fractional : spanFraction ('.' :: fraction ++ []) = (fraction, []) :=
    spanFraction_point more (by simp)
  rw [List.append_nil] at fractional
  apply writtenAs_append digits nonempty (by simp) _ fractional rfl named
  intro c mem
  rcases List.mem_cons.mp mem with rfl | mem
  · rfl
  · exact more.symbols c mem

theorem digits_digitChars (d : Decimal) : Digits d.digitChars := digits_toDigits d.digits

theorem digitChars_ne_nil (d : Decimal) : d.digitChars ≠ [] := Nat.toDigits_ne_nil

theorem digitsValue_digitChars (d : Decimal) : digitsValue d.digitChars = d.digits :=
  digitsValue_toDigits d.digits

theorem writtenAs_scaled (d : Decimal) (scaled : 0 ≤ d.exponent) (pointAlways : Bool) :
    WrittenAs (d.digitChars ++ List.replicate d.exponent.toNat '0' ++
      if pointAlways then ['.', '0'] else []) d := by
  have digits : Digits (d.digitChars ++ List.replicate d.exponent.toNat '0') :=
    fun c mem => (List.mem_append.mp mem).elim (digits_digitChars d c) (digits_zeros _ c)
  have nonempty : d.digitChars ++ List.replicate d.exponent.toNat '0' ≠ [] := by
    simp [digitChars_ne_nil]
  have named : (digitsValue (d.digitChars ++ List.replicate d.exponent.toNat '0') : ℚ) =
      d.value := by
    obtain ⟨n, scale⟩ := Int.eq_ofNat_of_zero_le scaled
    rw [digitsValue_append, digitsValue_digitChars, digitsValue_zeros, List.length_replicate,
      value, scale, zpow_natCast, Int.toNat_natCast]
    push_cast
    ring
  cases pointAlways with
  | false =>
    rw [if_neg (by decide), List.append_nil]
    apply writtenAs_whole digits nonempty
    simpa [ofParts, value] using named
  | true =>
    apply writtenAs_point digits nonempty digits_zero
    have zero : digitsValue ['0'] = 0 := rfl
    rw [← named, ofParts, value, digitsValue_append, zero, List.length_singleton]
    push_cast
    ring

theorem writtenAs_split (d : Decimal) {places : Nat} (fewer : places < d.digitChars.length)
    (power : -(places : Int) = d.exponent) :
    WrittenAs (d.digitChars.take (d.digitChars.length - places) ++
      '.' :: d.digitChars.drop (d.digitChars.length - places)) d := by
  have digits := digits_digitChars d
  apply writtenAs_point (fun c mem => digits c (List.mem_of_mem_take mem)) _
    (fun c mem => digits c (List.mem_of_mem_drop mem))
  · rw [ofParts, List.take_append_drop, digitsValue_digitChars, List.length_drop, value, value,
      ← power]
    congr 2
    dsimp only
    omega
  · intro empty
    have length := congrArg List.length empty
    rw [List.length_take, List.length_nil] at length
    omega

theorem writtenAs_small (d : Decimal) {places : Nat} (many : d.digitChars.length ≤ places)
    (power : -(places : Int) = d.exponent) :
    WrittenAs ('0' :: '.' ::
      (List.replicate (places - d.digitChars.length) '0' ++ d.digitChars)) d := by
  have more : Digits (List.replicate (places - d.digitChars.length) '0' ++ d.digitChars) :=
    fun c mem => (List.mem_append.mp mem).elim (digits_zeros _ c) (digits_digitChars d c)
  change WrittenAs (['0'] ++ '.' :: _) d
  apply writtenAs_point digits_zero (List.cons_ne_nil _ _) more
  have zero : digitsValue ['0'] = 0 := rfl
  rw [ofParts, digitsValue_append, digitsValue_append, digitsValue_digitChars, digitsValue_zeros,
    zero, List.length_append, List.length_replicate, value, value, ← power]
  simp only [Nat.mul_zero, Nat.zero_add]
  congr 2
  omega

theorem writtenAs_positional (pointAlways : Bool) (d : Decimal) :
    WrittenAs (d.positional pointAlways) d := by
  unfold positional
  by_cases scaled : 0 ≤ d.exponent
  · rw [if_pos scaled]
    exact writtenAs_scaled d scaled pointAlways
  · have power : -((-d.exponent).toNat : Int) = d.exponent := by omega
    simp only [if_neg scaled]
    by_cases fewer : (-d.exponent).toNat < d.digitChars.length
    · rw [if_pos fewer]
      exact writtenAs_split d fewer power
    · rw [if_neg fewer]
      exact writtenAs_small d (Nat.le_of_not_lt fewer) power

theorem exponent?_signed (e : Int) :
    exponent? ('e' :: (if e < 0 then '-' else '+') :: Nat.toDigits 10 e.natAbs) = some (e, []) := by
  have digits := spanDigits_all (digits_toDigits e.natAbs)
  have nonempty : (Nat.toDigits 10 e.natAbs).isEmpty = false := by
    rw [List.isEmpty_eq_false_iff]
    exact Nat.toDigits_ne_nil
  by_cases negative : e < 0
  · have value : -(e.natAbs : Int) = e := by omega
    rw [if_pos negative]
    simp only [exponent?, spanSign, digits, nonempty, digitsValue_toDigits, value]
    rfl
  · have value : (e.natAbs : Int) = e := by omega
    rw [if_neg negative]
    simp only [exponent?, spanSign, digits, nonempty, digitsValue_toDigits, value]
    rfl

theorem symbols_signed (e : Int) :
    ∀ c ∈ 'e' :: (if e < 0 then '-' else '+') :: Nat.toDigits 10 e.natAbs,
      isNumberSymbol c = true := by
  have digits := (digits_toDigits e.natAbs).symbols
  rintro c (_ | ⟨_, _ | ⟨_, mem⟩⟩)
  · rfl
  · split <;> rfl
  · exact digits c mem

theorem writtenAs_scientific (d : Decimal) : WrittenAs d.scientific d := by
  have whole : Digits (d.digitChars.take 1) :=
    fun c mem => digits_digitChars d c (List.mem_of_mem_take mem)
  have fraction : Digits (d.digitChars.drop 1) :=
    fun c mem => digits_digitChars d c (List.mem_of_mem_drop mem)
  have length : 0 < d.digitChars.length := List.length_pos_iff.mpr (digitChars_ne_nil d)
  have nonempty : d.digitChars.take 1 ≠ [] := by
    simp [digitChars_ne_nil]
  have named : (ofParts (d.digitChars.take 1) (d.digitChars.drop 1) d.leadingExponent).value =
      d.value := by
    rw [ofParts, List.take_append_drop, digitsValue_digitChars, value, value, leadingExponent,
      List.length_drop]
    by_cases zero : d.digits = 0
    · simp [zero]
    · rw [if_neg zero]
      congr 2
      dsimp only
      omega
  have symbols := symbols_signed d.leadingExponent
  have power := exponent?_signed d.leadingExponent
  unfold scientific
  rw [List.append_assoc]
  by_cases empty : d.digitChars.drop 1 = []
  · rw [empty] at named ⊢
    exact writtenAs_append whole nonempty (by simp) symbols rfl power named
  · have shown : (d.digitChars.drop 1).isEmpty = false := List.isEmpty_eq_false_iff.mpr empty
    simp only [shown]
    apply writtenAs_append whole nonempty (by simp) _ (spanFraction_point fraction (by simp)) power
      named
    intro c mem
    rcases List.mem_append.mp mem with first | later
    · rcases List.mem_cons.mp first with rfl | mem
      · rfl
      · exact fraction.symbols c mem
    · exact symbols c later

def written (layout : Layout) (d : Decimal) : List Char :=
  if d.isPositional layout then d.positional layout.pointAlways else d.scientific

theorem writtenAs_written (layout : Layout) (d : Decimal) : WrittenAs (d.written layout) d := by
  unfold written
  split
  · exact writtenAs_positional _ d
  · exact writtenAs_scientific d

/-- A layout that always shows a point writes a point or a power. -/
theorem point_or_power {layout : Layout} (point : layout.pointAlways = true) (d : Decimal) :
    '.' ∈ d.written layout ∨ 'e' ∈ d.written layout := by
  unfold written
  split
  · left
    simp only [point, positional]
    split
    · simp
    · split <;> simp
  · right
    simp [scientific]

end Decimal

namespace Numeral

variable {layout : Layout} {negative negative' : Bool} {d d' : Decimal}

theorem toList_render (layout : Layout) (negative : Bool) (d : Decimal) :
    (render layout (.finite negative d)).toList =
      if negative then '-' :: d.written layout else d.written layout := by
  rw [render, String.toList_ofList]
  rfl

theorem symbols_render {c : Char} (mem : c ∈ (render layout (.finite negative d)).toList) :
    isNumberSymbol c = true := by
  have symbols := (Decimal.writtenAs_written layout d).symbols
  rw [toList_render] at mem
  split at mem
  · rcases List.mem_cons.mp mem with rfl | mem
    · rfl
    · exact symbols c mem
  · exact symbols c mem

/-- The text of a finite numeral starts with a digit or a minus. -/
theorem starts_render (layout : Layout) (negative : Bool) (d : Decimal) :
    ∃ c ∈ (render layout (.finite negative d)).toList.head?, c.isDigit = true ∨ c = '-' := by
  rw [toList_render]
  cases negative with
  | true => exact ⟨'-', rfl, Or.inr rfl⟩
  | false =>
    obtain ⟨c, first, digit⟩ := (Decimal.writtenAs_written layout d).starts
    exact ⟨c, first, Or.inl digit⟩

/-- Finite numerals of one text have one sign and one number. -/
theorem value_eq_of_render
    (same : render layout (.finite negative d) = render layout (.finite negative' d')) :
    negative = negative' ∧ d.value = d'.value := by
  have texts := congrArg String.toList same
  rw [toList_render, toList_render] at texts
  obtain ⟨c, first, digit⟩ := (Decimal.writtenAs_written layout d).starts
  obtain ⟨c', first', digit'⟩ := (Decimal.writtenAs_written layout d').starts
  have minus : '-'.isDigit = false := rfl
  have signs : negative = negative' := by
    cases negative <;> cases negative'
    · rfl
    · simp only [Bool.false_eq_true, if_false, if_true] at texts
      rw [texts] at first
      rw [← Option.some.inj first, minus] at digit
      cases digit
    · simp only [Bool.false_eq_true, if_false, if_true] at texts
      rw [← texts] at first'
      rw [← Option.some.inj first', minus] at digit'
      cases digit'
    · rfl
  subst signs
  have bodies : d.written layout = d'.written layout := by
    split at texts
    · exact (List.cons.inj texts).2
    · exact texts
  obtain ⟨read, reads, named⟩ := (Decimal.writtenAs_written layout d).reads
  obtain ⟨read', reads', named'⟩ := (Decimal.writtenAs_written layout d').reads
  rw [← bodies, reads] at reads'
  obtain rfl := Option.some.inj reads'
  exact ⟨rfl, named.symm.trans named'⟩

theorem spanSign_render (layout : Layout) (negative : Bool) (d : Decimal) :
    spanSign (render layout (.finite negative d)).toList = (negative, d.written layout) := by
  rw [toList_render]
  cases negative with
  | true => rfl
  | false =>
    obtain ⟨c, first, digit⟩ := (Decimal.writtenAs_written layout d).starts
    obtain ⟨rest, starts⟩ := List.head?_eq_some_iff.mp first
    rw [if_neg (by decide), starts]
    unfold spanSign
    split
    · rename_i minus
      obtain ⟨rfl, _⟩ := List.cons.inj minus
      cases digit
    · rename_i plus
      obtain ⟨rfl, _⟩ := List.cons.inj plus
      cases digit
    · rfl

/-- The text of a finite numeral reads back with its sign and its number. -/
theorem ofText?_render (layout : Layout) (negative : Bool) (d : Decimal) :
    ∃ read, ofText? (render layout (.finite negative d)) = some (.finite negative read) ∧
      read.value = d.value := by
  obtain ⟨c, first, digit⟩ := (Decimal.writtenAs_written layout d).starts
  obtain ⟨read, reads, named⟩ := (Decimal.writtenAs_written layout d).reads
  have noWord {word : String} {l : Char} (starts : word.toList.head? = some l)
      (letter : l.isDigit = false) :
      String.ofList ((d.written layout).map Char.toLower) ≠ word := by
    rintro rfl
    rw [String.toList_ofList, List.head?_map, Option.mem_def.mp first, Option.map_some,
      toLower_of_isNumberSymbol (by simp [isNumberSymbol, digit])] at starts
    rw [← Option.some.inj starts, digit] at letter
    cases letter
  have isInfinity : (decide (String.ofList ((d.written layout).map Char.toLower) = "inf") ||
      decide (String.ofList ((d.written layout).map Char.toLower) = "infinity")) = false := by
    simp only [Bool.or_eq_false_iff, decide_eq_false_iff_not]
    exact ⟨noWord rfl rfl, noWord rfl rfl⟩
  have notNaN : String.ofList ((d.written layout).map Char.toLower) ≠ "nan" := noWord rfl rfl
  refine ⟨read, ?_, named⟩
  simp only [ofText?, spanSign_render, isInfinity, if_neg notNaN, reads]
  rfl

theorem written_ofInt (n : Int) :
    Decimal.written .plain ⟨n.natAbs, 0⟩ = Nat.toDigits 10 n.natAbs := by
  simp [Decimal.written, Decimal.isPositional, Layout.plain, Decimal.positional,
    Decimal.digitChars]

theorem toString_eq_render (n : Int) : toString n = render .plain (ofInt n) := by
  apply String.toList_inj.mp
  rw [ofInt, toList_render, written_ofInt, Int.toString_eq_repr, Int.repr_eq_if]
  by_cases negative : n < 0
  · have magnitude : n.natAbs = (-n).toNat := by omega
    rw [if_neg (by omega), if_pos (decide_eq_true negative), String.toList_append,
      Nat.toList_repr, magnitude]
    rfl
  · have magnitude : n.natAbs = n.toNat := by omega
    rw [if_pos (by omega), if_neg (by simpa using negative), Nat.toList_repr, magnitude]

/-- The text of an integer shows neither a point nor a power. -/
theorem plain_toString {n : Int} {c : Char} (mem : c ∈ (toString n).toList) :
    c ≠ '.' ∧ c ≠ 'e' := by
  have digits : c.isDigit = true ∨ c = '-' := by
    rw [toString_eq_render, ofInt, toList_render, written_ofInt] at mem
    split at mem
    · rcases List.mem_cons.mp mem with minus | mem
      · exact Or.inr minus
      · exact Or.inl (digits_toDigits _ c mem)
    · exact Or.inl (digits_toDigits _ c mem)
  constructor <;> rintro rfl <;> simp at digits

theorem eq_of_toString {n m : Int} (same : toString n = toString m) : n = m := by
  rw [toString_eq_render, toString_eq_render, ofInt, ofInt] at same
  obtain ⟨signs, values⟩ := value_eq_of_render same
  have magnitudes : n.natAbs = m.natAbs := by
    rw [Decimal.value, Decimal.value, zpow_zero, mul_one, mul_one] at values
    exact Nat.cast_injective values
  have sides := decide_eq_decide.mp signs
  omega

end Numeral

end MapStyle
