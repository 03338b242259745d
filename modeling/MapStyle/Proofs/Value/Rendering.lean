import MapStyle.Proofs.Json.Quoting
import MapStyle.Proofs.Number.Legible

/-!
# Texts that tell values

The document of plain data, written as text, tells the value up to equality: both zeros have one
text, equal values have one text, and different values have different texts.  A text is followed
through from its first character, with whatever comes after it, so that entries of arrays and
objects can be taken off one by one.
-/

set_option autoImplicit false

namespace MapStyle

open scoped Scalar

/-! ## Delimited texts -/

/-- What follows a number that ends where it seems to end. -/
def Ends (cs : List Char) : Prop := ∀ c ∈ cs.head?, isNumberSymbol c = false

theorem ends_cons {c : Char} (stop : isNumberSymbol c = false) (cs : List Char) :
    Ends (c :: cs) := by
  intro d first
  rwa [← Option.some.inj first]

theorem takeWhile_symbols {cs rest : List Char} (symbols : ∀ c ∈ cs, isNumberSymbol c = true)
    (ends : Ends rest) : (cs ++ rest).takeWhile isNumberSymbol = cs := by
  rw [List.takeWhile_append_of_pos symbols]
  cases rest with
  | nil => simp
  | cons c rest => simp [ends c rfl]

theorem eq_of_symbols {cs cs' rest rest' : List Char} (symbols : ∀ c ∈ cs, isNumberSymbol c = true)
    (symbols' : ∀ c ∈ cs', isNumberSymbol c = true) (ends : Ends rest) (ends' : Ends rest')
    (same : cs ++ rest = cs' ++ rest') : cs = cs' ∧ rest = rest' := by
  have first := takeWhile_symbols symbols ends
  rw [same, takeWhile_symbols symbols' ends'] at first
  subst first
  exact ⟨rfl, List.append_cancel_left same⟩

section Entries

variable {α : Type} {text : α → List Char} {R : α → α → Prop} {close : Char}
  {xs ys : List α} {rest rest' : List Char}

/-- The texts of two entries, with what follows, are one only for related entries. -/
def Apart (text : α → List Char) (R : α → α → Prop) (x y : α) : Prop :=
  ∀ rest rest', Ends rest → Ends rest' → text x ++ rest = text y ++ rest' → R x y ∧ rest = rest'

theorem ends_entries (bracket : isNumberSymbol close = false) (xs : List α) (rest : List Char) :
    Ends (xs.flatMap (fun x => ',' :: text x) ++ close :: rest) := by
  cases xs with
  | nil => exact ends_cons bracket rest
  | cons x xs => exact ends_cons (by decide) _

/-- Entries that are told apart are so too each after a comma, up to the bracket. -/
theorem forall₂_of_entries (bracket : isNumberSymbol close = false) (notComma : close ≠ ',')
    (apart : ∀ x ∈ xs, ∀ y ∈ ys, Apart text R x y)
    (same : xs.flatMap (fun x => ',' :: text x) ++ close :: rest =
      ys.flatMap (fun y => ',' :: text y) ++ close :: rest') :
    List.Forall₂ R xs ys ∧ rest = rest' := by
  induction xs generalizing ys with
  | nil =>
    cases ys with
    | nil => exact ⟨.nil, (List.cons.inj same).2⟩
    | cons y ys => exact absurd (List.cons.inj same).1 notComma
  | cons x xs ih =>
    cases ys with
    | nil => exact absurd (List.cons.inj same).1.symm notComma
    | cons y ys =>
      simp only [List.flatMap_cons, List.cons_append, List.cons.injEq, true_and,
        List.append_assoc] at same
      obtain ⟨head, tails⟩ := apart x List.mem_cons_self y List.mem_cons_self _ _
        (ends_entries bracket xs rest) (ends_entries bracket ys rest') same
      obtain ⟨tail, same⟩ := ih (fun x memX y memY => apart x (List.mem_cons_of_mem _ memX) y
        (List.mem_cons_of_mem _ memY)) tails
      exact ⟨.cons head tail, same⟩

theorem intercalate_map_cons (x : α) (xs : List α) :
    [','].intercalate ((x :: xs).map text) = text x ++ xs.flatMap fun x => ',' :: text x := by
  induction xs generalizing x with
  | nil => simp
  | cons y ys ih =>
    rw [List.map_cons, List.map_cons, List.intercalate_cons_cons, ← List.map_cons, ih,
      List.flatMap_cons]
    simp

theorem append_ne_cons {c : Char} {cs : List Char} (first : c ∈ cs.head?) (other : c ≠ close) :
    cs ++ rest ≠ close :: rest' := by
  intro same
  have head := congrArg List.head? same
  rw [List.head?_append, first, Option.some_or] at head
  exact other (Option.some.inj head)

theorem forall₂_of_bracketed (bracket : isNumberSymbol close = false) (notComma : close ≠ ',')
    (startsX : ∀ x ∈ xs, ∃ c ∈ (text x).head?, c ≠ close)
    (startsY : ∀ y ∈ ys, ∃ c ∈ (text y).head?, c ≠ close)
    (apart : ∀ x ∈ xs, ∀ y ∈ ys, Apart text R x y)
    (same : [','].intercalate (xs.map text) ++ close :: rest =
      [','].intercalate (ys.map text) ++ close :: rest') :
    List.Forall₂ R xs ys ∧ rest = rest' := by
  cases xs with
  | nil =>
    cases ys with
    | nil => exact ⟨.nil, (List.cons.inj same).2⟩
    | cons y ys =>
      obtain ⟨c, first, other⟩ := startsY y List.mem_cons_self
      rw [intercalate_map_cons, List.append_assoc] at same
      exact absurd same.symm (append_ne_cons first other)
  | cons x xs =>
    cases ys with
    | nil =>
      obtain ⟨c, first, other⟩ := startsX x List.mem_cons_self
      rw [intercalate_map_cons, List.append_assoc] at same
      exact absurd same (append_ne_cons first other)
    | cons y ys =>
      rw [intercalate_map_cons, intercalate_map_cons, List.append_assoc, List.append_assoc] at same
      obtain ⟨head, tails⟩ := apart x List.mem_cons_self y List.mem_cons_self _ _
        (ends_entries bracket xs rest) (ends_entries bracket ys rest') same
      obtain ⟨tail, same⟩ := forall₂_of_entries bracket notComma (fun x memX y memY =>
        apart x (List.mem_cons_of_mem _ memX) y (List.mem_cons_of_mem _ memY)) tails
      exact ⟨.cons head tail, same⟩

end Entries

/-! ## Numbers -/

def Layout.Worded (layout : Layout) : Prop :=
  (∃ c ∈ layout.infinity.toList, isNumberSymbol c = false) ∧
    ∃ c ∈ layout.nan.toList, isNumberSymbol c = false

theorem Layout.plain_worded : Layout.plain.Worded :=
  ⟨⟨'i', by simp [plain], rfl⟩, 'N', by simp [plain], rfl⟩

theorem Layout.document_worded : Layout.document.Worded :=
  ⟨⟨'n', by simp [document], rfl⟩, 'n', by simp [document], rfl⟩

variable {ν : Type} [Scalar ν] [Scalar.Legible ν] {x y : ν}

/-- A finite number is written as an integer if it is whole and small, and by its numeral else. -/
theorem ofNumber_cases (finite : Scalar.isFinite x = true) :
    Scalar.isWhole x = true ∧ Json.ofNumber x = .int (Scalar.toInt x) ∨
      ∃ negative d, Scalar.toNumeral .toEven x = .finite negative d ∧
        Json.ofNumber x = .float x := by
  unfold Json.ofNumber
  split
  · rename_i whole
    exact Or.inl ⟨(Bool.and_eq_true_iff.mp whole).1, rfl⟩
  · obtain ⟨negative, d, numeral⟩ := Scalar.Legible.numeral_of_isFinite .toEven x finite
    exact Or.inr ⟨negative, d, numeral, by rw [numeral]⟩

theorem ofNumber_zero (zero : (x == 0) = true) : Json.ofNumber x = .int 0 := by
  have part := Scalar.Legible.toInt_of_zero x zero
  have bounds := (Scalar.Ordered.beq_iff x 0).mp zero
  have whole : Scalar.isWhole x = true := by
    rw [Scalar.isWhole, part]
    exact zero
  have small : Scalar.abs x < Scalar.ofInt exactWholeLimit := by
    rw [Scalar.abs, if_neg fun below => Scalar.not_le_of_lt below bounds.2]
    exact Scalar.lt_of_le_of_lt bounds.1 Scalar.Legible.zero_lt_limit
  rw [Json.ofNumber, whole, decide_eq_true small, part]
  rfl

theorem ofNumber_congr (same : (x == y) = true) : Json.ofNumber x = Json.ofNumber y := by
  by_cases zero : (x == 0) = true
  · rw [ofNumber_zero zero, ofNumber_zero (Scalar.beq_trans (Scalar.beq_symm same) zero)]
  · rw [Scalar.Legible.eq_of_beq x y same zero]

theorem beq_of_render {layout : Layout} (worded : layout.Worded) {tie : Tie} {negative : Bool}
    {d : Decimal} (numeral : Scalar.toNumeral tie x = .finite negative d)
    (same : (Scalar.toNumeral tie x).render layout = (Scalar.toNumeral tie y).render layout) :
    (x == y) = true := by
  rw [numeral] at same
  have noWord {c : Char} (mem : c ∈ ((Scalar.toNumeral tie y).render layout).toList) :
      isNumberSymbol c = true := by
    rw [← same] at mem
    exact Numeral.symbols_render mem
  cases numeralY : Scalar.toNumeral tie y with
  | finite negative' d' =>
    rw [numeralY] at same
    obtain ⟨rfl, values⟩ := Numeral.value_eq_of_render same
    apply Scalar.Legible.beq_of_value tie x y
    · rw [numeral]
      rfl
    · rw [numeralY, Numeral.value?, values]
  | infinite negative' =>
    obtain ⟨c, mem, other⟩ := worded.1
    have symbol : isNumberSymbol c = true := by
      apply noWord
      rw [numeralY, Numeral.render]
      cases negative' <;> simp [mem]
    rw [other] at symbol
    cases symbol
  | nan =>
    obtain ⟨c, mem, other⟩ := worded.2
    have symbol : isNumberSymbol c = true := by
      apply noWord
      rwa [numeralY]
    rw [other] at symbol
    cases symbol

theorem symbols_ofNumber (finite : Scalar.isFinite x = true) :
    (∃ c ∈ (Json.ofNumber x).render.toList.head?, c.isDigit = true ∨ c = '-') ∧
      ∀ c ∈ (Json.ofNumber x).render.toList, isNumberSymbol c = true := by
  rcases ofNumber_cases finite with ⟨_, integer⟩ | ⟨negative, d, numeral, float⟩
  · rw [integer, Json.render, Numeral.toString_eq_render]
    exact ⟨Numeral.starts_render _ _ _, fun c => Numeral.symbols_render⟩
  · rw [float, Json.render, Json.numberText, numeral]
    exact ⟨Numeral.starts_render _ _ _, fun c => Numeral.symbols_render⟩

omit [Scalar.Legible ν] in
/-- The text of a number that is not an integer shows a point or a power, so no integer has it. -/
theorem numberText_ne_toString {tie : Tie} {negative : Bool} {d : Decimal}
    (numeral : Scalar.toNumeral tie x = .finite negative d) (n : Int) :
    (Scalar.toNumeral tie x).render .document ≠ toString n := by
  intro same
  have shown : '.' ∈ (toString n).toList ∨ 'e' ∈ (toString n).toList := by
    rw [← same, numeral, Numeral.toList_render]
    have point : '.' ∈ d.written .document ∨ 'e' ∈ d.written .document :=
      Decimal.point_or_power rfl d
    split
    · exact point.imp (List.mem_cons_of_mem _) (List.mem_cons_of_mem _)
    · exact point
  rcases shown with point | power
  · exact (Numeral.plain_toString point).1 rfl
  · exact (Numeral.plain_toString power).2 rfl

theorem beq_of_ofNumber (finiteX : Scalar.isFinite x = true) (finiteY : Scalar.isFinite y = true)
    (same : (Json.ofNumber x).render = (Json.ofNumber y).render) : (x == y) = true := by
  rcases ofNumber_cases finiteX with ⟨wholeX, integerX⟩ | ⟨_, _, numeralX, floatX⟩ <;>
    rcases ofNumber_cases finiteY with ⟨wholeY, integerY⟩ | ⟨_, _, numeralY, floatY⟩
  · rw [integerX, integerY, Json.render, Json.render] at same
    have parts := Numeral.eq_of_toString same
    rw [Scalar.isWhole, parts] at wholeX
    exact Scalar.beq_trans wholeX (Scalar.beq_symm wholeY)
  · rw [integerX, floatY, Json.render, Json.render] at same
    exact absurd same.symm (numberText_ne_toString numeralY _)
  · rw [floatX, integerY, Json.render, Json.render] at same
    exact absurd same (numberText_ne_toString numeralX _)
  · rw [floatX, floatY, Json.render, Json.render] at same
    exact beq_of_render Layout.document_worded numeralX same

/-! ## Values -/

namespace Value

/-- Plain data as documents hold it: nothing structured, and numbers that are finite. -/
inductive Plain : Value ν → Prop
  | null : Plain .null
  | boolean (b : Bool) : Plain (.boolean b)
  | number {x : ν} : Scalar.isFinite x = true → Plain (.number x)
  | string (s : String) : Plain (.string s)
  | array {items : List (Value ν)} : (∀ v ∈ items, Plain v) → Plain (.array items)
  | object {members : List (String × Value ν)} : (∀ m ∈ members, Plain m.2) →
    Plain (.object members)

def chars (v : Value ν) : List Char := v.toJson.render.toList

def memberChars (m : String × Value ν) : List Char := (quote m.1).toList ++ ':' :: m.2.chars

omit [Scalar.Legible ν] in
theorem chars_array (items : List (Value ν)) :
    chars (.array items) = '[' :: ([','].intercalate (items.map chars) ++ [']']) := by
  have entries : (Json.renderItems (toItems items)).map String.toList = items.map chars := by
    induction items with
    | nil => rfl
    | cons v items ih =>
      rw [toItems, Json.renderItems, List.map_cons, ih]
      rfl
  rw [chars, toJson, Json.render, String.toList_append, String.toList_append,
    String.toList_intercalate, entries]
  rfl

omit [Scalar.Legible ν] in
theorem chars_object (members : List (String × Value ν)) :
    chars (.object members) =
      '\x7b' :: ([','].intercalate (members.map memberChars) ++ ['\x7d']) := by
  have entries : (Json.renderMembers (toMembers members)).map String.toList =
      members.map memberChars := by
    induction members with
    | nil => rfl
    | cons m members ih =>
      obtain ⟨key, v⟩ := m
      rw [toMembers, Json.renderMembers, List.map_cons, ih, String.toList_append,
        String.toList_append, List.append_assoc]
      rfl
  rw [chars, toJson, Json.render, String.toList_append, String.toList_append,
    String.toList_intercalate, entries]
  rfl

omit [Scalar.Legible ν] in
theorem chars_null : chars (.null : Value ν) = ['n', 'u', 'l', 'l'] := by
  simp [chars, toJson, Json.render]

omit [Scalar.Legible ν] in
theorem chars_boolean (b : Bool) : chars (.boolean b : Value ν) =
    if b then ['t', 'r', 'u', 'e'] else ['f', 'a', 'l', 's', 'e'] := by
  cases b <;> simp [chars, toJson, Json.render]

/-- The shape that the first character of a document shows. -/
def shapeOfFirst : Char → Shape
  | 'n' => .null
  | 't' => .boolean
  | 'f' => .boolean
  | '"' => .string
  | '[' => .array
  | '\x7b' => .object
  | _ => .number

theorem shapeOfFirst_of_starts {c : Char} (starts : c.isDigit = true ∨ c = '-') :
    shapeOfFirst c = .number := by
  unfold shapeOfFirst
  split <;> first | rfl | simp at starts

variable {v w : Value ν}

theorem Plain.first (plain : v.Plain) :
    ∃ c ∈ v.chars.head?, shapeOfFirst c = v.shape ∧ c ≠ ']' := by
  cases plain with
  | null => exact ⟨'n', by rw [chars_null]; rfl, rfl, by decide⟩
  | boolean b =>
    rw [chars_boolean]
    cases b with
    | false => exact ⟨'f', rfl, rfl, by decide⟩
    | true => exact ⟨'t', rfl, rfl, by decide⟩
  | number finite =>
    obtain ⟨c, first, starts⟩ := (symbols_ofNumber finite).1
    refine ⟨c, first, shapeOfFirst_of_starts starts, ?_⟩
    rintro rfl
    simp at starts
  | string s => exact ⟨'"', by rw [chars, toJson, Json.render, toList_quote]; rfl, rfl, by decide⟩
  | array => exact ⟨'[', by rw [chars_array]; rfl, rfl, by decide⟩
  | object => exact ⟨'\x7b', by rw [chars_object]; rfl, rfl, by decide⟩

omit [Scalar.Legible ν] in
theorem beq_boolean {b c : Bool} : (boolean b == (boolean c : Value ν)) = true ↔ b = c := by
  change (b == c) = true ↔ b = c
  exact beq_iff_eq

omit [Scalar.Legible ν] in
theorem beq_string {s t : String} : (string s == (string t : Value ν)) = true ↔ s = t := by
  change (s == t) = true ↔ s = t
  exact beq_iff_eq

omit [Scalar.Legible ν] in
theorem beqItems_iff {xs ys : List (Value ν)} :
    beqItems xs ys = true ↔ List.Forall₂ (fun x y => (x == y) = true) xs ys := by
  induction xs generalizing ys with
  | nil => cases ys <;> simp [beqItems]
  | cons x xs ih =>
    cases ys with
    | nil => simp [beqItems]
    | cons y ys =>
      rw [beqItems, Bool.and_eq_true, ih, List.forall₂_cons]
      rfl

omit [Scalar.Legible ν] in
theorem beqMembers_iff {xs ys : List (String × Value ν)} : beqMembers xs ys = true ↔
    List.Forall₂ (fun m n => m.1 = n.1 ∧ (m.2 == n.2) = true) xs ys := by
  induction xs generalizing ys with
  | nil => cases ys <;> simp [beqMembers]
  | cons x xs ih =>
    cases ys with
    | nil => simp [beqMembers]
    | cons y ys =>
      rw [beqMembers, Bool.and_eq_true, Bool.and_eq_true, ih, List.forall₂_cons, beq_iff_eq]
      rfl

theorem Plain.shape_eq (plainV : v.Plain) (plainW : w.Plain) {rest rest' : List Char}
    (same : v.chars ++ rest = w.chars ++ rest') : v.shape = w.shape := by
  obtain ⟨c, first, shape, _⟩ := plainV.first
  obtain ⟨c', first', shape', _⟩ := plainW.first
  have heads := congrArg List.head? same
  rw [List.head?_append, List.head?_append, first, first', Option.some_or, Option.some_or] at heads
  rw [← shape, ← shape', Option.some.inj heads]

omit [Scalar.Legible ν] in
theorem apart_member {m n : String × Value ν}
    (apart : Apart chars (fun v w => (v == w) = true) m.2 n.2) :
    Apart memberChars (fun m n => m.1 = n.1 ∧ (m.2 == n.2) = true) m n := by
  intro rest rest' ends ends' same
  rw [memberChars, memberChars, List.append_assoc, List.append_assoc] at same
  obtain ⟨keys, later⟩ := eq_of_quote same
  obtain ⟨values, rests⟩ := apart rest rest' ends ends' (List.cons.inj later).2
  exact ⟨⟨keys, values⟩, rests⟩

/-- The characters of plain data, with what follows, tell the data. -/
theorem Plain.apart (plain : v.Plain) : ∀ {w : Value ν}, w.Plain →
    Apart chars (fun v w => (v == w) = true) v w := by
  -- on the first value; the first character forces the constructor of the second, and what follows
  -- is left open so that the entries of arrays and objects are instances
  induction plain with
  | null =>
    intro w plainW rest rest' _ _ same
    have shape := Plain.shape_eq .null plainW same
    cases plainW with
    | null => exact ⟨rfl, List.append_cancel_left same⟩
    | _ => cases shape
  | boolean b =>
    intro w plainW rest rest' _ _ same
    have shape := Plain.shape_eq (.boolean b) plainW same
    cases plainW with
    | boolean b' =>
      rw [chars_boolean, chars_boolean] at same
      cases b <;> cases b'
      · exact ⟨rfl, List.append_cancel_left same⟩
      · cases (List.cons.inj same).1
      · cases (List.cons.inj same).1
      · exact ⟨rfl, List.append_cancel_left same⟩
    | _ => cases shape
  | number finite =>
    intro w plainW rest rest' ends ends' same
    have shape := Plain.shape_eq (.number finite) plainW same
    cases plainW with
    | number finite' =>
      obtain ⟨texts, rests⟩ := eq_of_symbols (symbols_ofNumber finite).2
        (symbols_ofNumber finite').2 ends ends' same
      exact ⟨beq_of_ofNumber finite finite' (String.toList_inj.mp texts), rests⟩
    | _ => cases shape
  | string s =>
    intro w plainW rest rest' _ _ same
    have shape := Plain.shape_eq (.string s) plainW same
    cases plainW with
    | string t =>
      obtain ⟨texts, rests⟩ := eq_of_quote same
      exact ⟨beq_string.mpr texts, rests⟩
    | _ => cases shape
  | @array items plain ih =>
    intro w plainW rest rest' _ _ same
    have shape := Plain.shape_eq (.array plain) plainW same
    cases plainW with
    | @array items' plain' =>
      rw [chars_array, chars_array] at same
      simp only [List.cons_append, List.append_assoc, List.cons.injEq, true_and,
        List.nil_append] at same
      obtain ⟨entries, rests⟩ := forall₂_of_bracketed (by decide) (by decide)
        (fun v mem => (plain v mem).first.imp fun _ first => ⟨first.1, first.2.2⟩)
        (fun v mem => (plain' v mem).first.imp fun _ first => ⟨first.1, first.2.2⟩)
        (fun v mem w mem' => ih v mem (plain' w mem')) same
      exact ⟨beqItems_iff.mpr entries, rests⟩
    | _ => cases shape
  | @object members plain ih =>
    intro w plainW rest rest' _ _ same
    have shape := Plain.shape_eq (.object plain) plainW same
    cases plainW with
    | @object members' plain' =>
      rw [chars_object, chars_object] at same
      simp only [List.cons_append, List.append_assoc, List.cons.injEq, true_and,
        List.nil_append] at same
      have quoted (m : String × Value ν) : ∃ c ∈ (memberChars m).head?, c ≠ '\x7d' := by
        refine ⟨'"', ?_, by decide⟩
        rw [memberChars, toList_quote]
        rfl
      obtain ⟨entries, rests⟩ := forall₂_of_bracketed (by decide) (by decide)
        (fun m _ => quoted m) (fun m _ => quoted m)
        (fun m mem n mem' => apart_member (ih m mem (plain' n mem'))) same
      exact ⟨beqMembers_iff.mpr entries, rests⟩
    | _ => cases shape

theorem map_eq_of_forall₂ {α : Type} {R : α → α → Prop} {text : α → List Char} {xs ys : List α}
    (related : List.Forall₂ R xs ys) (congr : ∀ x ∈ xs, ∀ y, R x y → text x = text y) :
    xs.map text = ys.map text := by
  induction related with
  | nil => rfl
  | cons head _ ih =>
    rw [List.map_cons, List.map_cons, congr _ List.mem_cons_self _ head,
      ih fun x mem => congr x (List.mem_cons_of_mem _ mem)]

theorem Plain.chars_congr (plain : v.Plain) :
    ∀ {w : Value ν}, (v == w) = true → v.chars = w.chars := by
  induction plain with
  | null =>
    intro w same
    cases w with
    | null => rfl
    | _ => cases same
  | boolean b =>
    intro w same
    cases w with
    | boolean b' => rw [beq_boolean.mp same]
    | _ => cases same
  | @number x finite =>
    intro w same
    cases w with
    | number y => rw [chars, chars, toJson, toJson, ofNumber_congr (same : (x == y) = true)]
    | _ => cases same
  | string s =>
    intro w same
    cases w with
    | string t => rw [beq_string.mp same]
    | _ => cases same
  | @array items plain ih =>
    intro w same
    cases w with
    | array items' =>
      have entries := map_eq_of_forall₂ (beqItems_iff.mp same) fun v mem w => ih v mem
      rw [chars_array, chars_array, entries]
    | _ => cases same
  | @object members plain ih =>
    intro w same
    cases w with
    | object members' =>
      have entries : members.map memberChars = members'.map memberChars := by
        apply map_eq_of_forall₂ (beqMembers_iff.mp same)
        intro m mem n related
        rw [memberChars, memberChars, related.1, ih m mem related.2]
      rw [chars_object, chars_object, entries]
    | _ => cases same

/-- The documents of plain data have one text just where the data are equal. -/
theorem render_eq_iff (plainV : v.Plain) (plainW : w.Plain) :
    v.toJson.render = w.toJson.render ↔ (v == w) = true := by
  constructor
  · intro same
    have ends : Ends [] := by simp [Ends]
    exact (plainV.apart plainW [] [] ends ends (by rw [chars, chars, same])).1
  · intro same
    exact String.toList_inj.mp (plainV.chars_congr same)

end Value

end MapStyle
