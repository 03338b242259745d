import MapStyle.Proofs.Color.Reading
import MapStyle.Proofs.Number.Written

/-!
# Colors read from their own text

The text of a color has its straight components as bytes and its alpha as a number.  Read again it
gives a color of the same alpha whose components are those of the bytes, each at most half a byte
off; and that color has the same text.
-/

set_option autoImplicit false

namespace MapStyle

/-- The byte next to a fraction; of two the greater. -/
noncomputable def nearestByte (x : ℝ) : ℤ := round (x * 255)

open Extended

/-- Real numbers that differ by at most a tolerance. -/
def Extended.Within (tolerance : ℝ) (v w : Extended) : Prop :=
  ∃ x y, v = real x ∧ w = real y ∧ |x - y| ≤ tolerance

theorem Extended.ofNumeral_congr {d d' : Decimal} (same : d.value = d'.value) (negative : Bool) :
    Extended.ofNumeral (.finite negative d) = Extended.ofNumeral (.finite negative d') := by
  have number (d : Decimal) : (Scalar.ofNumeral (.finite negative d) : ℝ) =
      (if negative then -1 else 1) * (d.value : ℝ) := by
    show (if negative then -1 else 1) * (d.digits : ℝ) * (10 : ℝ) ^ d.exponent = _
    rw [Decimal.value]
    push_cast
    ring
  simp only [Extended.ofNumeral, number, same]

/-! ## Characters of numbers -/

theorem isWhiteSpace_of_isNumberSymbol {c : Char} (symbol : isNumberSymbol c = true) :
    isWhiteSpace c = false := by
  have codes := toNat_of_isNumberSymbol symbol
  simp only [isWhiteSpace, Bool.or_eq_false_iff, Bool.and_eq_false_iff, decide_eq_false_iff_not]
  omega

theorem trimBlanks_eq_self {cs : List Char} (plain : ∀ c ∈ cs, isWhiteSpace c = false) :
    trimBlanks cs = cs := by
  have kept {ds : List Char} (plain : ∀ c ∈ ds, isWhiteSpace c = false) :
      ds.dropWhile isWhiteSpace = ds := by
    cases ds with
    | nil => rfl
    | cons d rest => exact List.dropWhile_cons_of_neg (by simp [plain d])
  rw [trimBlanks, kept plain, kept fun c mem => plain c (List.mem_reverse.mp mem),
    List.reverse_reverse]

theorem dropEnding?_append (cs ending : List Char) :
    dropEnding? ending (cs ++ ending) = some cs := by
  have ends : ending.isSuffixOf (cs ++ ending) = true :=
    List.isSuffixOf_iff_suffix.mpr (List.suffix_append cs ending)
  rw [dropEnding?, if_pos ends, List.length_append, Nat.add_sub_cancel, List.take_left]

theorem dropEnding?_of_not_mem {c : Char} {cs : List Char} (absent : c ∉ cs) :
    dropEnding? [c] cs = none := by
  refine if_neg fun ends => absent ?_
  exact (List.isSuffixOf_iff_suffix.mp ends).mem (List.mem_singleton_self c)

structure IsNumberWord (word : List Char) : Prop where
  nonempty : word ≠ []
  symbols : ∀ c ∈ word, isNumberSymbol c = true

namespace IsNumberWord

variable {word : List Char}

theorem trimBlanks_eq (number : IsNumberWord word) : trimBlanks word = word :=
  trimBlanks_eq_self fun c mem => isWhiteSpace_of_isNumberSymbol (number.symbols c mem)

theorem not_mem (number : IsNumberWord word) {c : Char} (other : isNumberSymbol c = false) :
    c ∉ word := fun mem => by
  rw [number.symbols c mem] at other
  cases other

theorem of_render (layout : Layout) (negative : Bool) (d : Decimal) :
    IsNumberWord (Numeral.render layout (.finite negative d)).toList where
  nonempty empty := by
    obtain ⟨c, first, _⟩ := Numeral.starts_render layout negative d
    rw [empty] at first
    cases first
  symbols _ mem := Numeral.symbols_render mem

theorem of_toString (n : Int) : IsNumberWord (toString n).toList := by
  rw [Numeral.toString_eq_render]
  exact of_render _ _ _

end IsNumberWord

namespace Color

/-! ## Words of a text -/

section

variable {word : List Char}

theorem separates_false (number : IsNumberWord word) :
    ∀ c ∈ word, (decide (c = ',') || decide (c = ' ') || decide (c = '/')) = false := by
  intro c mem
  simp only [Bool.or_eq_false_iff, decide_eq_false_iff_not]
  refine ⟨⟨?_, ?_⟩, ?_⟩ <;> rintro rfl <;> exact number.not_mem rfl mem

theorem arguments_word (number : IsNumberWord word) : arguments word = [word] := by
  rw [arguments, List.splitOnP_eq_singleton (separates_false number)]
  simp [number.trimBlanks_eq, number.nonempty]

theorem arguments_append (number : IsNumberWord word) (rest : List Char) :
    arguments (word ++ ',' :: rest) = word :: arguments rest := by
  rw [arguments, List.splitOnP_append_cons_of_forall_mem (separates_false number) ',' rfl]
  simp [arguments, number.trimBlanks_eq, number.nonempty]

def rgba (inner : List Char) : List Char := "rgba(".toList ++ inner ++ [')']

theorem call?_rgba (inner : List Char) :
    call? (rgba inner) = some ("rgba".toList, arguments inner) := by
  have opens : (rgba inner).contains '(' = true := rfl
  have after : ((rgba inner).dropWhile (· != '(')).drop 1 = inner ++ [')'] := rfl
  have before : (rgba inner).takeWhile (· != '(') = "rgba".toList := rfl
  rw [call?, if_pos opens, after, before, dropEnding?_append]
  rfl

theorem ofText?_rgba {ν : Type} [Scalar ν] {text : String} {inner : List Char}
    (isText : text.toList = rgba inner)
    (plain : ∀ c ∈ inner, isWhiteSpace c = false ∧ c.toLower = c) :
    (ofText? text : Option (Color ν)) = ofRgb? (arguments inner) := by
  have word : ("rgba(".toList.all fun c =>
      decide (isWhiteSpace c = false ∧ c.toLower = c)) = true := rfl
  have opening : ∀ c ∈ "rgba(".toList, isWhiteSpace c = false ∧ c.toLower = c :=
    fun c mem => of_decide_eq_true (List.all_eq_true.mp word c mem)
  have allPlain : ∀ c ∈ rgba inner, isWhiteSpace c = false ∧ c.toLower = c := by
    intro c mem
    rcases List.mem_append.mp mem with mem | mem
    · exact (List.mem_append.mp mem).elim (opening c) (plain c)
    · obtain rfl := List.mem_singleton.mp mem
      decide
  have trimmed : (trimBlanks text.toList).map Char.toLower = rgba inner := by
    rw [isText, trimBlanks_eq_self fun c mem => (allPlain c mem).1]
    exact (List.map_congr_left fun c mem => (allPlain c mem).2).trans (List.map_id' _)
  have notTransparent : rgba inner ≠ "transparent".toList := by
    intro same
    cases same
  unfold ofText?
  simp only [trimmed, if_neg notTransparent, call?_rgba]
  rfl

theorem toList_rgba (r g b a : String) :
    ("rgba(" ++ r ++ "," ++ g ++ "," ++ b ++ "," ++ a ++ ")").toList =
      rgba (r.toList ++ ',' :: (g.toList ++ ',' :: (b.toList ++ ',' :: a.toList))) := by
  have joined {s t u : String} (comma : t.toList = [',']) (bracket : u.toList = [')']) :
      (s ++ r ++ t ++ g ++ t ++ b ++ t ++ a ++ u).toList = s.toList ++
        (r.toList ++ ',' :: (g.toList ++ ',' :: (b.toList ++ ',' :: a.toList))) ++ [')'] := by
    simp [comma, bracket]
  exact joined rfl rfl

end

/-! ## Numbers of a text -/

section

variable [Elementary]

theorem number?_toString {n : Int} (small : |n| ≤ 2 ^ 128) :
    (number? (toString n).toList : Option Extended) = some (real n) := by
  obtain ⟨read, reads, same⟩ := Numeral.ofText?_render .plain (n < 0) ⟨n.natAbs, 0⟩
  rw [number?, String.ofList_toList, Numeral.toString_eq_render, Numeral.ofInt, reads,
    Option.map_some, ← ofInt_eq small]
  exact congrArg some (ofNumeral_congr same _)

theorem isNumberWord_of_number? {v : Extended} {x : ℝ}
    (readsBack : number? (Scalar.toText v).toList = some (real x)) :
    IsNumberWord (Scalar.toText v).toList := by
  rw [number?, String.ofList_toList] at readsBack
  rw [Scalar.toText] at readsBack ⊢
  cases written : Scalar.toNumeral .away v with
  | finite negative d => exact .of_render _ _ _
  | infinite negative =>
    have named : Numeral.ofText? (Numeral.render .plain (.infinite negative)) =
        some (.infinite negative) := by
      cases negative <;> decide
    rw [written, named] at readsBack
    cases readsBack
  | nan =>
    have named : Numeral.ofText? (Numeral.render .plain .nan) = some .nan := by decide
    rw [written, named] at readsBack
    cases readsBack

theorem number?_toText {x : ℝ}
    (named : Extended.ofNumeral (Scalar.toNumeral .away (real x)) = real x) :
    number? (Scalar.toText (real x)).toList = some (real x) := by
  rw [number?, String.ofList_toList, Scalar.toText]
  cases written : Scalar.toNumeral .away (real x) with
  | finite negative d =>
    rw [written] at named
    obtain ⟨read, reads, same⟩ := Numeral.ofText?_render .plain negative d
    rw [reads, Option.map_some, ← named]
    exact congrArg some (ofNumeral_congr same negative)
  | infinite negative =>
    rw [written] at named
    cases named
  | nan =>
    rw [written] at named
    cases named

theorem clamp_of_between {low high x : ℝ} (atLeast : low ≤ x) (atMost : x ≤ high) :
    Scalar.clamp (real low) (real high) (real x) = real x := by
  rw [Scalar.clamp, if_neg (by simpa using atLeast), if_neg (by simpa using atMost)]

omit [Elementary] in
theorem cast_byte {n : ℤ} (isByte : 0 ≤ n ∧ n ≤ 255) : (0 : ℝ) ≤ n ∧ (n : ℝ) ≤ 255 :=
  ⟨Int.cast_nonneg isByte.1, by exact_mod_cast isByte.2⟩

theorem channel?_byte {n : ℤ} (isByte : 0 ≤ n ∧ n ≤ 255) :
    channel? (toString n).toList = some (real (n / 255)) := by
  have small : |n| ≤ 2 ^ 128 := by
    rw [abs_of_nonneg isByte.1]
    omega
  obtain ⟨low, high⟩ := cast_byte isByte
  have notPercent := dropEnding?_of_not_mem ((IsNumberWord.of_toString n).not_mem (c := '%') rfl)
  simp only [channel?, numberOrPercent?, notPercent, number?_toString small, Option.map_some,
    zero_eq, ofNat_eq, Nat.reducePow, Nat.reduceLeDiff, clamp_of_between low high]
  rw [real_div (by norm_num)]

theorem alpha?_word {word : List Char} {a : ℝ} (number : IsNumberWord word)
    (reads : number? word = some (real a)) (nonneg : 0 ≤ a) (atMost : a ≤ 1) :
    alpha? [word] = some (real a) := by
  have notPercent := dropEnding?_of_not_mem (number.not_mem (c := '%') rfl)
  simp only [alpha?, numberOrPercent?, notPercent, reads, Option.map_some, zero_eq, one_eq,
    clamp_of_between nonneg atMost]

end

/-! ## Bytes -/

theorem nearestByte_bounds {x : ℝ} (low : 0 ≤ x) (high : x ≤ 1) :
    0 ≤ nearestByte x ∧ nearestByte x ≤ 255 := by
  rw [nearestByte, round_eq]
  constructor
  · exact Int.floor_nonneg.mpr (by linarith)
  · refine Int.lt_add_one_iff.mp (Int.floor_lt.mpr ?_)
    push_cast
    linarith

theorem abs_nearestByte_sub_le (x : ℝ) : |(nearestByte x : ℝ) / 255 - x| ≤ 1 / 510 := by
  have near := abs_sub_round (x * 255)
  rw [abs_le] at near ⊢
  rw [nearestByte]
  constructor <;> linarith

theorem nearestByte_byte (n : ℤ) : nearestByte (n / 255) = n := by
  rw [nearestByte, div_mul_cancel₀ _ (by norm_num), round_intCast]

theorem nearestByte_zero : nearestByte 0 = 0 := by
  simpa using nearestByte_byte 0

section

variable [Elementary]

theorem byte_real {x : ℝ} (low : 0 ≤ x) (high : x ≤ 1) : byte (real x) = nearestByte x := by
  obtain ⟨nonneg, atMost⟩ := nearestByte_bounds low high
  have rounded : Scalar.round (real (x * 255)) = real (nearestByte x) := by
    show real (if 0 ≤ x * 255 then (⌊x * 255 + 1 / 2⌋ : ℝ) else (⌈x * 255 - 1 / 2⌉ : ℝ)) = _
    rw [if_pos (by positivity), nearestByte, round_eq]
  have least : (Scalar.ofInt Word.leastSigned : Extended) = real (Word.leastSigned : ℤ) :=
    ofInt_eq (by decide)
  have greatest : (Scalar.ofInt Word.greatestSigned : Extended) = real (Word.greatestSigned : ℤ) :=
    ofInt_eq (by decide)
  have above : ¬ nearestByte x ≤ Word.leastSigned := by
    rw [Word.leastSigned]
    omega
  have below : ¬ Word.greatestSigned ≤ nearestByte x := by
    rw [Word.greatestSigned]
    omega
  have whole : Scalar.toInt (real (nearestByte x)) = nearestByte x := by
    show (if (0 : ℝ) ≤ nearestByte x then ⌊(nearestByte x : ℝ)⌋ else ⌈(nearestByte x : ℝ)⌉) = _
    rw [if_pos (Int.cast_nonneg nonneg), Int.floor_intCast]
  simp only [byte, ofNat_eq, Nat.reducePow, Nat.reduceLeDiff, real_mul, rounded, Scalar.toIntWithin,
    isNaN_real, least, greatest, real_le, Int.cast_le, if_neg above, if_neg below, whole]
  rfl

/-! ## Straight components -/

/-- The straight components of a valid color are fractions, which are zero if its alpha is. -/
theorem straight_of_isValid {c : Color Extended} (valid : c.IsValid) : ∃ x y z a : ℝ,
    c.straight = (real x, real y, real z, real a) ∧ c.a = real a ∧ (0 ≤ x ∧ x ≤ 1) ∧
      (0 ≤ y ∧ y ≤ 1) ∧ (0 ≤ z ∧ z ≤ 1) ∧ (0 ≤ a ∧ a ≤ 1) ∧ (a = 0 → x = 0 ∧ y = 0 ∧ z = 0) := by
  obtain ⟨r, g, b, a, rfl, red, green, blue, alpha⟩ := isValid_iff.mp valid
  have nonneg : 0 ≤ a := red.1.trans red.2
  by_cases isZero : a = 0
  · subst isZero
    refine ⟨0, 0, 0, 0, ?_, rfl, by simp, by simp, by simp, by simp, fun _ => ⟨rfl, rfl, rfl⟩⟩
    simp [straight]
  · have notZero : ¬ (real a == real 0) = true := fun same => isZero (real_beq.mp same)
    have positive : 0 < a := lt_of_le_of_ne nonneg (Ne.symm isZero)
    have fraction {v : ℝ} (inside : 0 ≤ v ∧ v ≤ a) : 0 ≤ v / a ∧ v / a ≤ 1 :=
      ⟨div_nonneg inside.1 nonneg, (div_le_one positive).mpr inside.2⟩
    refine ⟨r / a, g / a, b / a, a, ?_, rfl, fraction red, fraction green, fraction blue,
      ⟨nonneg, alpha⟩, fun zero => absurd zero isZero⟩
    simp only [straight, zero_eq, if_neg notZero, real_div isZero]

theorem straight_ofStraight {x y z a : ℝ} (shown : a = 0 → x = 0 ∧ y = 0 ∧ z = 0) :
    (ofStraight (real x) (real y) (real z) (real a)).straight =
      (real x, real y, real z, real a) := by
  by_cases isZero : a = 0
  · obtain ⟨rfl, rfl, rfl⟩ := shown isZero
    simp [straight, ofStraight, isZero]
  · have notZero : ¬ (real a == real 0) = true := fun same => isZero (real_beq.mp same)
    simp only [straight, ofStraight, zero_eq, if_neg notZero, real_mul, real_div isZero,
      mul_div_cancel_right₀ _ isZero]

/-! ## The text of a valid color -/

def bytesAndAlpha (r g b : Int) (alpha : List Char) : List Char :=
  (toString r).toList ++
    ',' :: ((toString g).toList ++ ',' :: ((toString b).toList ++ ',' :: alpha))

theorem toList_text {c : Color Extended} {x y z a : ℝ}
    (isStraight : c.straight = (real x, real y, real z, real a)) (red : 0 ≤ x ∧ x ≤ 1)
    (green : 0 ≤ y ∧ y ≤ 1) (blue : 0 ≤ z ∧ z ≤ 1) : c.text.toList =
      rgba (bytesAndAlpha (nearestByte x) (nearestByte y) (nearestByte z)
        (Scalar.toText (real a)).toList) := by
  unfold text
  rw [isStraight]
  dsimp only
  rw [byte_real red.1 red.2, byte_real green.1 green.2, byte_real blue.1 blue.2]
  exact toList_rgba _ _ _ _

theorem ofText?_bytesAndAlpha {text : String} {r g b : ℤ} {alpha : List Char} {a : ℝ}
    (isText : text.toList = rgba (bytesAndAlpha r g b alpha)) (red : 0 ≤ r ∧ r ≤ 255)
    (green : 0 ≤ g ∧ g ≤ 255) (blue : 0 ≤ b ∧ b ≤ 255) (number : IsNumberWord alpha)
    (reads : number? alpha = some (real a)) (unit : 0 ≤ a ∧ a ≤ 1) :
    ofText? text =
      some (ofStraight (real (r / 255)) (real (g / 255)) (real (b / 255)) (real a)) := by
  have words (n : ℤ) := IsNumberWord.of_toString n
  have plain : ∀ c ∈ bytesAndAlpha r g b alpha, isWhiteSpace c = false ∧ c.toLower = c := by
    intro c mem
    have symbolOrComma : isNumberSymbol c = true ∨ c = ',' := by
      simp only [bytesAndAlpha, List.mem_append, List.mem_cons] at mem
      rcases mem with mem | rfl | mem | rfl | mem | rfl | mem
      · exact Or.inl ((words r).symbols c mem)
      · exact Or.inr rfl
      · exact Or.inl ((words g).symbols c mem)
      · exact Or.inr rfl
      · exact Or.inl ((words b).symbols c mem)
      · exact Or.inr rfl
      · exact Or.inl (number.symbols c mem)
    rcases symbolOrComma with symbol | rfl
    · exact ⟨isWhiteSpace_of_isNumberSymbol symbol, toLower_of_isNumberSymbol symbol⟩
    · decide
  have split : arguments (bytesAndAlpha r g b alpha) =
      [(toString r).toList, (toString g).toList, (toString b).toList, alpha] := by
    rw [bytesAndAlpha, arguments_append (words r), arguments_append (words g),
      arguments_append (words b), arguments_word number]
  rw [ofText?_rgba isText plain, split]
  simp only [ofRgb?, channel?_byte red, channel?_byte green, channel?_byte blue,
    alpha?_word number reads unit.1 unit.2]

/-- A color is read from the text of another: of the same alpha, with straight components at most
half a byte off, and with the same text. -/
structure RereadAs (c d : Color Extended) : Prop where
  read : ofText? c.text = some d
  alpha : d.a = c.a
  red : Within (1 / 510) d.straight.1 c.straight.1
  green : Within (1 / 510) d.straight.2.1 c.straight.2.1
  blue : Within (1 / 510) d.straight.2.2.1 c.straight.2.2.1
  text : d.text = c.text
  again : ofText? d.text = some d

/-- The text of a valid color whose alpha reads back from its own text is that of a color. -/
theorem text_rereads {c : Color Extended} (valid : c.IsValid)
    (readsBack : number? (Scalar.toText c.a).toList = some c.a) : ∃ d, RereadAs c d := by
  obtain ⟨x, y, z, a, isStraight, isAlpha, red, green, blue, unit, shown⟩ :=
    straight_of_isValid valid
  rw [isAlpha] at readsBack
  have isText := toList_text isStraight red green blue
  have read := ofText?_bytesAndAlpha isText (nearestByte_bounds red.1 red.2)
    (nearestByte_bounds green.1 green.2) (nearestByte_bounds blue.1 blue.2)
    (isNumberWord_of_number? readsBack) readsBack unit
  -- a component that is zero is the byte zero, so that transparent colors stay
  have isStraight' := straight_ofStraight (x := nearestByte x / 255) (y := nearestByte y / 255)
    (z := nearestByte z / 255) (a := a) fun zero => by
      obtain ⟨rfl, rfl, rfl⟩ := shown zero
      simp only [nearestByte_zero, Int.cast_zero, zero_div, and_self]
  have fraction {n : ℤ} (isByte : 0 ≤ n ∧ n ≤ 255) : (0 : ℝ) ≤ n / 255 ∧ (n / 255 : ℝ) ≤ 1 := by
    obtain ⟨low, high⟩ := cast_byte isByte
    exact ⟨by positivity, (div_le_one (by norm_num)).mpr high⟩
  have isText' := toList_text isStraight' (fraction (nearestByte_bounds red.1 red.2))
    (fraction (nearestByte_bounds green.1 green.2)) (fraction (nearestByte_bounds blue.1 blue.2))
  simp only [nearestByte_byte] at isText'
  have same := String.toList_inj.mp (isText'.trans isText.symm)
  refine ⟨_, read, isAlpha.symm, ?_, ?_, ?_, same, same ▸ read⟩ <;> rw [isStraight', isStraight]
  · exact ⟨_, _, rfl, rfl, abs_nearestByte_sub_le x⟩
  · exact ⟨_, _, rfl, rfl, abs_nearestByte_sub_le y⟩
  · exact ⟨_, _, rfl, rfl, abs_nearestByte_sub_le z⟩

end

def halfNumeral : Numeral := .finite false ⟨5, -1⟩

theorem ofNumeral_half : Extended.ofNumeral halfNumeral = real (1 / 2) := by
  refine ofNumeral_finite ?_ ?_
  · show (if false = true then -1 else 1) * ((5 : ℕ) : ℝ) * (10 : ℝ) ^ (-1 : ℤ) = 1 / 2
    norm_num
  · norm_num

/-- The functions of the real numbers, with the numeral of one half. -/
@[reducible] noncomputable def writingHalf : Elementary :=
  open Classical in
  { Elementary.ofReals with
    toNumeral _ v := if v = Extended.ofNumeral halfNumeral then halfNumeral else .nan }

/-- A color whose alpha is one half and whose red is halfway between two bytes. -/
theorem text_rereads_of_tie : ∃ _ : Elementary, ∃ c d : Color Extended,
    c = ⟨real (1 / 4), real 0, real (1 / 2), real (1 / 2)⟩ ∧ c.IsValid ∧
      Scalar.toText c.a = "0.5" ∧ number? (Scalar.toText c.a).toList = some c.a ∧
      RereadAs c d := by
  refine ⟨writingHalf, ⟨real (1 / 4), real 0, real (1 / 2), real (1 / 2)⟩, ?_⟩
  let _ := writingHalf
  have valid : (⟨real (1 / 4), real 0, real (1 / 2), real (1 / 2)⟩ : Color Extended).IsValid := by
    refine isValid_iff.mpr ⟨_, _, _, _, rfl, ?_⟩
    norm_num
  have written : writingHalf.toNumeral .away (real (1 / 2)) = halfNumeral :=
    if_pos ofNumeral_half.symm
  have names : Extended.ofNumeral (writingHalf.toNumeral .away (real (1 / 2))) = real (1 / 2) := by
    rw [written, ofNumeral_half]
  have readsBack := number?_toText names
  have text : Scalar.toText (real (1 / 2)) = "0.5" := by
    show (writingHalf.toNumeral .away (real (1 / 2))).render .plain = "0.5"
    rw [written]
    decide
  obtain ⟨d, reread⟩ := text_rereads valid readsBack
  exact ⟨d, rfl, valid, text, readsBack, reread⟩

end Color

end MapStyle
