import MapStyle.Proofs.Color.Validity
import MapStyle.Color.Text
import MapStyle.Proofs.Members

/-!
# Colors read from text

Which texts give valid colors.  A component that is written as a number is moved into its range,
infinities included; the word for a value that is no number stays what it is, and spreads to the
components.  So a text that is read gives a valid color exactly if none of its components and alpha
is written by that word.  The hue may be: a hue that is no number counts as one that gives the lower
level.
-/

set_option autoImplicit false

namespace MapStyle

open Extended

namespace Color

/-! ## Words -/

/-- A word names the value that is no number, or that many percent. -/
def NamesNaN (word : List Char) : Prop :=
  Numeral.ofText? (String.ofList ((dropEnding? ['%'] word).getD word)) = some .nan

instance : DecidablePred NamesNaN := fun _ => inferInstanceAs (Decidable (_ = _))

/-- The words of a text that say components and alpha: all arguments of `rgb`, and all arguments of
`hsl` but the hue. -/
def componentWords (text : String) : List (List Char) :=
  (call? ((trimBlanks text.toList).map Char.toLower)).elim [] fun (name, args) =>
    if name = "rgb".toList ∨ name = "rgba".toList then args else args.drop 1

/-! ## Digits and names -/

theorem lowerHexDigit?_le {c : Char} {d : ℕ} (read : lowerHexDigit? c = some d) : d ≤ 15 := by
  unfold lowerHexDigit? at read
  split_ifs at read with digit letter
  · have atMost : c.toNat ≤ 57 := (Char.isDigit_iff_toNat.mp digit).2
    have isZero : '0'.toNat = 48 := rfl
    obtain rfl := Option.some.inj read
    omega
  · have atMost : c.toNat ≤ 102 := letter.2
    have isA : 'a'.toNat = 97 := rfl
    obtain rfl := Option.some.inj read
    omega

theorem digits_of_hexDigits? {cs : List Char} {ds : List ℕ} (read : hexDigits? cs = some ds) :
    (∀ d ∈ ds, d ≤ 15) ∧ ∀ c ∈ cs, lowerHexDigit? c ≠ none := by
  induction cs generalizing ds with
  | nil =>
    obtain rfl := Option.some.inj read
    exact ⟨nofun, nofun⟩
  | cons c cs ih =>
    rw [hexDigits?] at read
    split at read
    · rename_i isDigit areDigits
      obtain rfl := Option.some.inj read
      obtain ⟨small, digits⟩ := ih areDigits
      refine ⟨List.forall_mem_cons.mpr ⟨lowerHexDigit?_le isDigit, small⟩,
        List.forall_mem_cons.mpr ⟨?_, digits⟩⟩
      rw [isDigit]
      exact Option.some_ne_none _
    · cases read

theorem call?_of_hexDigits? {cs : List Char} {ds : List ℕ} (read : hexDigits? cs = some ds) :
    call? ('#' :: cs) = none := by
  have noBracket : '(' ∉ cs := fun mem => (digits_of_hexDigits? read).2 '(' mem rfl
  have absent : ('#' :: cs).contains '(' = false := by
    simpa using noBracket
  rw [call?, absent]
  rfl

theorem exists_hexDigits? {ν : Type} [Scalar ν] {cs : List Char} {c : Color ν}
    (read : ofHex? cs = some c) : ∃ ds, hexDigits? cs = some ds := by
  cases areDigits : hexDigits? cs with
  | some ds => exact ⟨ds, rfl⟩
  | none =>
    rw [ofHex?, areDigits] at read
    cases read

theorem namedColor?_le {name : String} {r g b : ℕ} (found : namedColor? name = some (r, g, b)) :
    r ≤ 255 ∧ g ≤ 255 ∧ b ≤ 255 := by
  obtain ⟨n, isNamed, bytes⟩ := Option.map_eq_some_iff.mp found
  have small : (namedColors.all fun entry => entry.2 < 0x1000000) = true := by
    decide +kernel
  have below : n < 0x1000000 := by
    simpa using List.all_eq_true.mp small (name, n) (mem_of_lookup isNamed)
  simp only [Prod.mk.injEq] at bytes
  omega

/-! ## Levels of lightness -/

theorem between_levels {p q t : ℝ} (le : p ≤ q) (low : 0 ≤ t) (high : t ≤ 1) :
    p ≤ p + (q - p) * t ∧ p + (q - p) * t ≤ q := by
  have width : 0 ≤ q - p := sub_nonneg.mpr le
  have nonneg : 0 ≤ (q - p) * t := mul_nonneg width low
  have atMost : (q - p) * t ≤ q - p := mul_le_of_le_one_right width high
  exact ⟨by linarith, by linarith⟩

theorem levels {s l q : ℝ} (sUnit : 0 ≤ s ∧ s ≤ 1) (lUnit : 0 ≤ l ∧ l ≤ 1)
    (isUpper : q = if l < 0.5 then l * (1 + s) else l + s - l * s) :
    0 ≤ 2 * l - q ∧ 2 * l - q ≤ q ∧ q ≤ 1 := by
  have product : 0 ≤ l * s := mul_nonneg lUnit.1 sUnit.1
  have leLight : l * s ≤ l := mul_le_of_le_one_right lUnit.1 sUnit.2
  have rest : 0 ≤ (1 - l) * s := mul_nonneg (sub_nonneg.mpr lUnit.2) sUnit.1
  have leRest : (1 - l) * s ≤ 1 - l :=
    mul_le_of_le_one_right (sub_nonneg.mpr lUnit.2) sUnit.2
  split_ifs at isUpper with dark
  · norm_num at dark
    refine ⟨?_, ?_, ?_⟩ <;> linarith
  · norm_num at dark
    refine ⟨?_, ?_, ?_⟩ <;> linarith

/-! ## Components -/

/-- A component is a fraction under a condition, and no number otherwise. -/
def Component (proper : Prop) (v : Extended) : Prop :=
  (proper ∧ InUnit v) ∨ (¬ proper ∧ v = nan)

section

variable [Elementary]

theorem number?_eq_nan_iff {cs : List Char} {v : Extended} (read : number? cs = some v) :
    v = nan ↔ Numeral.ofText? (String.ofList cs) = some .nan := by
  obtain ⟨n, isNumeral, rfl⟩ := Option.map_eq_some_iff.mp read
  rw [isNumeral, Option.some_inj]
  exact ofNumeral_eq_nan_iff n

theorem numberOrPercent?_eq_nan_iff {whole : ℝ} (positive : 0 < whole) {cs : List Char}
    {v : Extended} (read : numberOrPercent? (real whole) cs = some v) : v = nan ↔ NamesNaN cs := by
  unfold numberOrPercent? at read
  unfold NamesNaN
  cases ending : dropEnding? ['%'] cs with
  | some body =>
    rw [ending] at read
    obtain ⟨n, isNumber, rfl⟩ := Option.map_eq_some_iff.mp read
    simp only [ofNat_eq, Nat.reducePow, Nat.reduceLeDiff]
    rw [mul_eq_nan_iff _ positive, div_eq_nan_iff _ (by norm_num), number?_eq_nan_iff isNumber,
      Option.getD_some]
  | none =>
    rw [ending] at read
    rw [number?_eq_nan_iff read, Option.getD_none]

theorem percent?_eq_nan_iff {cs : List Char} {v : Extended} (read : percent? cs = some v) :
    v = nan ↔ NamesNaN cs := by
  unfold percent? at read
  unfold NamesNaN
  cases ending : dropEnding? ['%'] cs with
  | some body =>
    rw [ending] at read
    obtain ⟨n, isNumber, rfl⟩ := Option.map_eq_some_iff.mp read
    simp only [ofNat_eq, Nat.reducePow, Nat.reduceLeDiff]
    rw [div_eq_nan_iff _ (by norm_num), number?_eq_nan_iff isNumber, Option.getD_some]
  | none =>
    rw [ending] at read
    cases read

theorem clamp_component {proper : Prop} {v : Extended} (number : v = nan ↔ ¬ proper) :
    Component proper (Scalar.clamp (real 0) (real 1) v) := by
  by_cases isNaN : v = nan
  · refine Or.inr ⟨number.mp isNaN, ?_⟩
    rw [isNaN, clamp_nan]
  · refine Or.inl ⟨not_not.mp fun improper => isNaN (number.mpr improper), ?_⟩
    exact clamp_real isNaN zero_le_one

theorem channel?_component {cs : List Char} {v : Extended} (read : channel? cs = some v) :
    Component (¬ NamesNaN cs) v := by
  unfold channel? at read
  simp only [zero_eq, ofNat_eq, Nat.reducePow, Nat.reduceLeDiff] at read
  obtain ⟨w, isNumber, rfl⟩ := Option.map_eq_some_iff.mp read
  have number := numberOrPercent?_eq_nan_iff (by norm_num) isNumber
  by_cases isNaN : w = nan
  · refine Or.inr ⟨not_not.mpr (number.mp isNaN), ?_⟩
    rw [isNaN, clamp_nan, nan_div]
  · obtain ⟨x, isReal, low, high⟩ := clamp_real isNaN (show (0 : ℝ) ≤ 255 by norm_num)
    refine Or.inl ⟨fun names => isNaN (number.mpr names), x / 255, ?_, by positivity, ?_⟩
    · rw [isReal, real_div (by norm_num)]
    · rw [div_le_one (by norm_num)]
      exact high

theorem alpha?_component {words : List (List Char)} {v : Extended} (read : alpha? words = some v) :
    Component (∀ w ∈ words, ¬ NamesNaN w) v := by
  match words, read with
  | [], read =>
    simp only [alpha?, one_eq, Option.some.injEq] at read
    subst read
    exact Or.inl ⟨nofun, 1, rfl, zero_le_one, le_rfl⟩
  | [cs], read =>
    simp only [alpha?, zero_eq, one_eq] at read
    obtain ⟨w, isNumber, rfl⟩ := Option.map_eq_some_iff.mp read
    have number := numberOrPercent?_eq_nan_iff one_pos isNumber
    refine clamp_component ?_
    rw [number, List.forall_mem_singleton, not_not]
  | _ :: _ :: _, read => cases read

theorem ofStraight_isValid_iff {P Q R S : Prop} {r g b a : Extended} (red : Component P r)
    (green : Component Q g) (blue : Component R b) (alpha : Component S a) :
    (ofStraight r g b a).IsValid ↔ P ∧ Q ∧ R ∧ S := by
  -- a component that is no number makes its product with any alpha, zero included, no number
  have isNumber {T : Prop} {v : Extended} (component : Component T v)
      (notNaN : v ≠ nan) : T ∧ InUnit v :=
    component.resolve_right fun improper => notNaN improper.2
  constructor
  · intro valid
    have aNumber : a ≠ nan := by
      rintro rfl
      exact not_nan_le _ valid.alpha
    refine ⟨(isNumber red ?_).1, (isNumber green ?_).1, (isNumber blue ?_).1,
      (isNumber alpha aNumber).1⟩
    · rintro rfl
      exact not_le_nan _ (nan_mul a ▸ valid.red.1)
    · rintro rfl
      exact not_le_nan _ (nan_mul a ▸ valid.green.1)
    · rintro rfl
      exact not_le_nan _ (nan_mul a ▸ valid.blue.1)
  · rintro ⟨p, q, r', s⟩
    have inUnit {T : Prop} {v : Extended} (component : Component T v) (proper : T) : InUnit v :=
      (component.resolve_right fun improper => improper.1 proper).2
    exact ofStraight_isValid (inUnit red p) (inUnit green q) (inUnit blue r') (inUnit alpha s)

/-! ## Hues -/

theorem turn_real {t : ℝ} (low : -1 ≤ t) (high : t ≤ 2) :
    ∃ u, (let t := if real t < real 0 then real t + real 1 else real t
      if real 1 < t then t - real 1 else t) = real u ∧ 0 ≤ u ∧ u ≤ 1 := by
  by_cases below : t < 0
  · have notAbove : ¬ 1 < t + 1 := by linarith
    exact ⟨t + 1, by simp [below, notAbove], by linarith, by linarith⟩
  · by_cases above : 1 < t
    · exact ⟨t - 1, by simp [below, above], by linarith, by linarith⟩
    · exact ⟨t, by simp [below, above], by linarith, by linarith⟩

theorem hueComponent_real {p q : ℝ} (le : p ≤ q) {t : ℝ} (low : -1 ≤ t) (high : t ≤ 2) :
    ∃ x, hueComponent (real p) (real q) (real t) = real x ∧ p ≤ x ∧ x ≤ q := by
  obtain ⟨u, isTurn, nonneg, atMost⟩ := turn_real low high
  have sixth : real 1 / real 6 = real (1 / 6) := real_div (by norm_num)
  have half : real 1 / real 2 = real (1 / 2) := real_div (by norm_num)
  have twoThirds : real 2 / real 3 = real (2 / 3) := real_div (by norm_num)
  unfold hueComponent
  simp only [zero_eq, one_eq, ofNat_eq, Nat.reducePow, Nat.reduceLeDiff] at isTurn ⊢
  rw [isTurn, sixth, half, twoThirds]
  simp only [real_lt, real_add, real_sub, real_mul]
  split_ifs with rising flat falling
  · obtain ⟨atLeast, below⟩ := between_levels le (t := 6 * u) (by linarith) (by linarith)
    exact ⟨_, rfl, by linarith, by linarith⟩
  · exact ⟨q, rfl, le, le_rfl⟩
  · obtain ⟨atLeast, below⟩ :=
      between_levels le (t := (2 / 3 - u) * 6) (by linarith) (by linarith)
    exact ⟨_, rfl, by linarith, by linarith⟩
  · exact ⟨p, rfl, le_rfl, le⟩

theorem hueComponent_nan (p q : Extended) : hueComponent p q nan = p := by
  unfold hueComponent
  simp only [not_nan_lt, not_lt_nan, if_false]

theorem hueComponent_of_nan (t : Extended) : hueComponent nan nan t = nan := by
  unfold hueComponent
  simp only [nan_add, ite_self]

/-- The hue of any number of degrees as a part of the circle: no number, or from zero to one. -/
theorem circle_part (h : Extended) :
    Scalar.rem (Scalar.rem h (real 360) + real 360) (real 360) / real 360 = nan ∨
      ∃ x, Scalar.rem (Scalar.rem h (real 360) + real 360) (real 360) / real 360 = real x ∧
        0 ≤ x ∧ x ≤ 1 := by
  have positive : (0 : ℝ) < 360 := by norm_num
  cases h with
  | real x =>
    have above : 0 ≤ Scalar.rem x 360 + 360 := by
      have low := (abs_lt.mp (Scalar.abs_real_rem_lt x positive)).1
      linarith
    obtain ⟨low, high⟩ := Scalar.real_rem_of_nonneg above positive
    refine Or.inr ⟨_, ?_, div_nonneg low positive.le, (div_le_one positive).mpr high.le⟩
    rw [real_rem positive, real_add, real_rem positive, real_div positive.ne']
  | infinite negative => exact Or.inl (by rw [infinite_rem, nan_add, nan_rem, nan_div])
  | nan => exact Or.inl (by rw [nan_rem, nan_add, nan_rem, nan_div])

/-- Between two levels from zero to one every component of a hue is from zero to one: at a place of
the circle that is no number, or less than one turn off. -/
theorem hueComponent_inUnit {p q : ℝ} (nonneg : 0 ≤ p) (le : p ≤ q) (atMost : q ≤ 1) {t : Extended}
    (place : t = nan ∨ ∃ x, t = real x ∧ -1 ≤ x ∧ x ≤ 2) :
    InUnit (hueComponent (real p) (real q) t) := by
  rcases place with rfl | ⟨x, rfl, low, high⟩
  · exact ⟨p, hueComponent_nan _ _, nonneg, le.trans atMost⟩
  · obtain ⟨y, isReal, atLeast, below⟩ := hueComponent_real le low high
    exact ⟨y, isReal, nonneg.trans atLeast, below.trans atMost⟩

theorem hslComponents_of_nan {s l : Extended} (h : Extended) (improper : s = nan ∨ l = nan) :
    hslComponents h s l = (nan, nan, nan) := by
  unfold hslComponents
  simp only [zero_eq, one_eq, ofNat_eq, decimal_eq, Nat.reducePow, Nat.reduceLeDiff]
  rcases improper with rfl | rfl
  · have notZero : ¬ ((nan : Extended) == real 0) = true := Bool.false_ne_true
    simp only [clamp_nan, if_neg notZero, add_nan, mul_nan, ite_self, sub_nan,
      hueComponent_of_nan]
  · have notDark (v : Extended) : ¬ (nan : Extended) < v := not_nan_lt v
    simp only [clamp_nan, if_neg (notDark _), nan_add, nan_mul, nan_sub, mul_nan,
      hueComponent_of_nan, ite_self]

theorem hslComponents_inUnit {s l : Extended} (h : Extended) (sNumber : s ≠ nan)
    (lNumber : l ≠ nan) : InUnit (hslComponents h s l).1 ∧ InUnit (hslComponents h s l).2.1 ∧
      InUnit (hslComponents h s l).2.2 := by
  obtain ⟨s', isS, sUnit⟩ := clamp_real sNumber (zero_le_one (α := ℝ))
  obtain ⟨l', isL, lUnit⟩ := clamp_real lNumber (zero_le_one (α := ℝ))
  have light : InUnit (real l') := ⟨l', rfl, lUnit⟩
  have third : (real 1 : Extended) / real 3 = real (1 / 3) := real_div (by norm_num)
  unfold hslComponents
  simp only [zero_eq, one_eq, ofNat_eq, decimal_eq, Nat.reducePow, Nat.reduceLeDiff, isS, isL,
    third]
  split
  · exact ⟨light, light, light⟩
  · have upper : (if real l' < real 0.5 then real l' * (real 1 + real s')
        else real l' + real s' - real l' * real s') =
        real (if l' < 0.5 then l' * (1 + s') else l' + s' - l' * s') := by
      by_cases dark : l' < 0.5 <;> simp [dark]
    obtain ⟨nonneg, le, atMost⟩ := levels sUnit lUnit rfl
    rw [upper]
    generalize (if l' < 0.5 then l' * (1 + s') else l' + s' - l' * s') = q at nonneg le atMost ⊢
    simp only [real_mul, real_sub]
    have inUnit {t : Extended} := hueComponent_inUnit (t := t) nonneg le atMost
    rcases circle_part h with isNaN | ⟨x, isReal, low, high⟩
    · rw [isNaN]
      exact ⟨inUnit (Or.inl (nan_add _)), inUnit (Or.inl rfl), inUnit (Or.inl (nan_sub _))⟩
    · rw [isReal]
      exact ⟨inUnit (Or.inr ⟨x + 1 / 3, real_add, by linarith, by linarith⟩),
        inUnit (Or.inr ⟨x, rfl, by linarith, by linarith⟩),
        inUnit (Or.inr ⟨x - 1 / 3, real_sub, by linarith, by linarith⟩)⟩

theorem hslComponents_component (h s l : Extended) :
    Component (s ≠ nan ∧ l ≠ nan) (hslComponents h s l).1 ∧
      Component (s ≠ nan ∧ l ≠ nan) (hslComponents h s l).2.1 ∧
      Component (s ≠ nan ∧ l ≠ nan) (hslComponents h s l).2.2 := by
  by_cases numbers : s ≠ nan ∧ l ≠ nan
  · obtain ⟨red, green, blue⟩ := hslComponents_inUnit h numbers.1 numbers.2
    exact ⟨Or.inl ⟨numbers, red⟩, Or.inl ⟨numbers, green⟩, Or.inl ⟨numbers, blue⟩⟩
  · have improper : s = nan ∨ l = nan := by
      simpa only [not_and_or, not_not] using numbers
    rw [hslComponents_of_nan h improper]
    exact ⟨Or.inr ⟨numbers, rfl⟩, Or.inr ⟨numbers, rfl⟩, Or.inr ⟨numbers, rfl⟩⟩

/-! ## Forms of colors -/

theorem ofRgb?_isValid_iff {words : List (List Char)} {c : Color Extended}
    (read : ofRgb? words = some c) : c.IsValid ↔ ∀ w ∈ words, ¬ NamesNaN w := by
  match words, read with
  | r :: g :: b :: rest, read =>
    rw [ofRgb?] at read
    split at read
    · rename_i red green blue alpha isRed isGreen isBlue isAlpha
      obtain rfl := Option.some.inj read
      rw [ofStraight_isValid_iff (channel?_component isRed) (channel?_component isGreen)
        (channel?_component isBlue) (alpha?_component isAlpha)]
      simp only [List.forall_mem_cons]
    · cases read

theorem ofHsl?_isValid_iff {words : List (List Char)} {c : Color Extended}
    (read : ofHsl? words = some c) : c.IsValid ↔ ∀ w ∈ words.drop 1, ¬ NamesNaN w := by
  match words, read with
  | h :: s :: l :: rest, read =>
    rw [ofHsl?] at read
    split at read
    · rename_i hue saturation lightness alpha _ isSaturation isLightness isAlpha
      obtain rfl := Option.some.inj read
      have sNaN := percent?_eq_nan_iff isSaturation
      have lNaN := percent?_eq_nan_iff isLightness
      have proper : saturation ≠ nan ∧ lightness ≠ nan ↔ ¬ NamesNaN s ∧ ¬ NamesNaN l := by
        rw [ne_eq, ne_eq, sNaN, lNaN]
      obtain ⟨red, green, blue⟩ := hslComponents_component hue saturation lightness
      refine (ofStraight_isValid_iff red green blue (alpha?_component isAlpha)).trans ?_
      rw [and_self_left, and_self_left, proper, and_assoc]
      simp only [List.drop_succ_cons, List.drop_zero, List.forall_mem_cons]
    · cases read

theorem ofBytes_isValid {r g b a : ℕ} (red : r ≤ 255) (green : g ≤ 255) (blue : b ≤ 255)
    (alpha : a ≤ 255) : (ofBytes r g b a : Color Extended).IsValid := by
  have component {n : ℕ} (isByte : n ≤ 255) :
      InUnit ((Scalar.ofInt n : Extended) / real 255) := by
    have small : |(n : ℤ)| ≤ 2 ^ 128 := by
      rw [Nat.abs_cast]
      omega
    have bound : ((n : ℤ) : ℝ) ≤ 255 := by
      exact_mod_cast isByte
    refine ⟨(n : ℤ) / 255, ?_, div_nonneg (by positivity) (by norm_num), ?_⟩
    · rw [ofInt_eq small, real_div (by norm_num)]
    · rwa [div_le_one (by norm_num)]
  unfold ofBytes
  simp only [ofNat_eq, Nat.reducePow, Nat.reduceLeDiff]
  exact ofStraight_isValid (component red) (component green) (component blue) (component alpha)

theorem ofHex?_isValid {cs : List Char} {c : Color Extended} (read : ofHex? cs = some c) :
    c.IsValid := by
  unfold ofHex? at read
  split at read
  case h_5 => cases read
  all_goals
    rename_i areDigits
    have small := (digits_of_hexDigits? areDigits).1
    simp only [List.forall_mem_cons] at small
    obtain rfl := Option.some.inj read
    exact ofBytes_isValid (by omega) (by omega) (by omega) (by omega)

theorem ofCall?_isValid_iff {name : List Char} {args : List (List Char)} {c : Color Extended}
    (read : ofCall? name args = some c) : c.IsValid ↔
      ∀ w ∈ if name = "rgb".toList ∨ name = "rgba".toList then args else args.drop 1,
        ¬ NamesNaN w := by
  have isList {text : String} (same : String.ofList name = text) : name = text.toList := by
    rw [← same, String.toList_ofList]
  unfold ofCall? at read
  split at read
  · rename_i isRgb
    rw [if_pos (Or.inl (isList isRgb))]
    exact ofRgb?_isValid_iff read
  · rename_i isRgba
    rw [if_pos (Or.inr (isList isRgba))]
    exact ofRgb?_isValid_iff read
  · rename_i isHsl
    rw [isList isHsl, if_neg (by decide)]
    exact ofHsl?_isValid_iff read
  · rename_i isHsla
    rw [isList isHsla, if_neg (by decide)]
    exact ofHsl?_isValid_iff read
  · cases read

/-- A text that is read as a color gives a valid color exactly if none of the words for its
components and alpha names the value that is no number. -/
theorem ofText?_isValid_iff {text : String} {c : Color Extended} (read : ofText? text = some c) :
    c.IsValid ↔ ∀ w ∈ componentWords text, ¬ NamesNaN w := by
  unfold ofText? at read
  unfold componentWords
  generalize (trimBlanks text.toList).map Char.toLower = cs at read ⊢
  dsimp only at read
  split at read
  · rename_i isTransparent
    obtain rfl := Option.some.inj read
    subst isTransparent
    have valid : (transparent : Color Extended).IsValid := by
      refine ⟨?_, ?_, ?_, ?_⟩ <;> simp [transparent]
    exact iff_of_true valid (by decide)
  · split at read
    · obtain ⟨ds, areDigits⟩ := exists_hexDigits? read
      rw [call?_of_hexDigits? areDigits]
      exact iff_of_true (ofHex?_isValid read) nofun
    · cases isCall : call? cs with
      | some call =>
        simp only [isCall] at read
        exact ofCall?_isValid_iff read
      | none =>
        simp only [isCall] at read
        obtain ⟨⟨r, g, b⟩, isNamed, rfl⟩ := Option.map_eq_some_iff.mp read
        obtain ⟨red, green, blue⟩ := namedColor?_le isNamed
        exact iff_of_true (ofBytes_isValid red green blue le_rfl) nofun

end

/-- A hue that is no number, and an infinite one; an alpha beyond one is moved to one. -/
theorem ofText?_isValid_of_odd_hues :
    (∃ c : Color Extended, ofText? "hsl(nan,50%,50%)" = some c ∧ c.IsValid) ∧
      ∃ c : Color Extended, ofText? "HSLA(inf 100% 25% / 1e400)" = some c ∧ c.IsValid := by
  obtain ⟨c, isNaN⟩ : ∃ c : Color Extended, ofText? "hsl(nan,50%,50%)" = some c := ⟨_, rfl⟩
  obtain ⟨d, isInfinite⟩ : ∃ c : Color Extended, ofText? "HSLA(inf 100% 25% / 1e400)" = some c :=
    ⟨_, rfl⟩
  exact ⟨⟨c, isNaN, (ofText?_isValid_iff isNaN).mpr (by decide)⟩,
    d, isInfinite, (ofText?_isValid_iff isInfinite).mpr (by decide)⟩

/-- A red that is no number is read, and the color is not valid. -/
theorem not_isValid_of_nan_red :
    ∃ c : Color Extended, ofText? "rgb(nan,0,0)" = some c ∧ ¬ c.IsValid := by
  obtain ⟨c, isColor⟩ : ∃ c : Color Extended,
      ofRgb? ["nan".toList, "0".toList, "0".toList] = some c := ⟨_, rfl⟩
  refine ⟨c, isColor, fun valid => ?_⟩
  exact (ofRgb?_isValid_iff isColor).mp valid _ List.mem_cons_self (by decide)

end Color

end MapStyle
