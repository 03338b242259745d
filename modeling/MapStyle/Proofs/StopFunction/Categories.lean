import MapStyle.Proofs.StopFunction.ZoomStops
import MapStyle.Proofs.Value.Rendering

/-!
# Functions of categories

A categorical function looks its input up by text.  For inputs and keys of one shape this is the
same as comparing them as values, so the last stop whose key equals the input decides.  Keys of
another shape come in only as texts that spell the input.
-/

set_option autoImplicit false

namespace MapStyle

open scoped Scalar

variable {ν : Type} [Scalar ν]

namespace Value

/-- What a function can take as its input: plain data, or a number, which may be an infinity. -/
def IsInput (v : Value ν) : Prop := v.Plain ∨ ∃ x, v = .number x

/-- A text that is how a value of another shape is looked up. -/
def Spells (key v : Value ν) : Prop := v.shape ≠ .string ∧ key = .string v.lookupText

theorem lookupText_zero {x : ν} (zero : (x == 0) = true) : lookupText (.number x) = "0" := by
  rw [lookupText, if_pos zero]

/-- The first character of a text that is looked up, of what is no text itself, shows the shape. -/
theorem first_lookupText_number (x : ν) :
    ∃ c ∈ (lookupText (.number x)).toList.head?, shapeOfFirst c = .number := by
  by_cases zero : (x == 0) = true
  · rw [lookupText_zero zero]
    exact ⟨'0', by simp, rfl⟩
  · rw [lookupText, if_neg zero, Scalar.toText]
    cases Scalar.toNumeral .away x with
    | finite negative d =>
      obtain ⟨c, first, starts⟩ := Numeral.starts_render .plain negative d
      exact ⟨c, first, shapeOfFirst_of_starts starts⟩
    | infinite negative =>
      cases negative with
      | false => exact ⟨'i', by simp [Numeral.render, Layout.plain], rfl⟩
      | true => exact ⟨'-', by simp [Numeral.render, Layout.plain], rfl⟩
    | nan => exact ⟨'N', by simp [Numeral.render, Layout.plain], rfl⟩

variable [Scalar.Legible ν]

theorem beq_zero_of_toText {x : ν} (shown : Scalar.toText x = "0") : (x == 0) = true := by
  have zero := Scalar.Legible.numeral_zero (ν := ν) .away
  have same : (Scalar.toNumeral .away (0 : ν)).render .plain =
      (Scalar.toNumeral .away x).render .plain := by
    rw [zero]
    exact Eq.trans (by decide) shown.symm
  exact Scalar.beq_symm (beq_of_render Layout.plain_worded zero same)

theorem lookupText_number_iff {x y : ν} (finite : Scalar.isFinite x = true) :
    lookupText (.number x) = lookupText (.number y) ↔ (x == y) = true := by
  constructor
  · intro same
    by_cases zeroX : (x == 0) = true
    · by_cases zeroY : (y == 0) = true
      · exact Scalar.beq_trans zeroX (Scalar.beq_symm zeroY)
      · rw [lookupText_zero zeroX, lookupText, if_neg zeroY] at same
        exact absurd (beq_zero_of_toText same.symm) zeroY
    · by_cases zeroY : (y == 0) = true
      · rw [lookupText_zero zeroY, lookupText, if_neg zeroX] at same
        exact absurd (beq_zero_of_toText same) zeroX
      · rw [lookupText, lookupText, if_neg zeroX, if_neg zeroY] at same
        obtain ⟨_, _, numeral⟩ := Scalar.Legible.numeral_of_isFinite .away x finite
        exact beq_of_render Layout.plain_worded numeral same
  · intro same
    by_cases zero : (x == 0) = true
    · rw [lookupText_zero zero, lookupText_zero (Scalar.beq_trans (Scalar.beq_symm same) zero)]
    · rw [Scalar.Legible.eq_of_beq x y same zero]

variable {key v : Value ν}

theorem first_lookupText (input : v.IsInput) (noText : v.shape ≠ .string) :
    ∃ c ∈ v.lookupText.toList.head?, shapeOfFirst c = v.shape := by
  rcases input with plain | ⟨x, rfl⟩
  · cases plain with
    | null => exact ⟨'n', by simp [lookupText], rfl⟩
    | boolean b =>
      cases b with
      | false => exact ⟨'f', by simp [lookupText, text], rfl⟩
      | true => exact ⟨'t', by simp [lookupText, text], rfl⟩
    | number => exact first_lookupText_number _
    | string => exact absurd rfl noText
    | array plain =>
      obtain ⟨c, first, shape, _⟩ := (Plain.array plain).first
      exact ⟨c, first, shape⟩
    | object plain =>
      obtain ⟨c, first, shape, _⟩ := (Plain.object plain).first
      exact ⟨c, first, shape⟩
  · exact first_lookupText_number x

/-- Of values that are looked up alike and differ in shape, one is a text that spells the other. -/
theorem spells_of_lookupText (plain : key.Plain) (input : v.IsInput)
    (same : key.lookupText = v.lookupText) (differ : key.shape ≠ v.shape) :
    key.Spells v ∨ v.Spells key := by
  by_cases textKey : key.shape = .string
  · left
    cases plain with
    | string s => exact ⟨fun text => differ text.symm, congrArg _ same⟩
    | _ => cases textKey
  · by_cases textV : v.shape = .string
    · right
      rcases input with plain | ⟨x, rfl⟩
      · cases plain with
        | string s => exact ⟨textKey, congrArg _ same.symm⟩
        | _ => cases textV
      · cases textV
    · obtain ⟨c, first, shape⟩ := first_lookupText (Or.inl plain) textKey
      obtain ⟨c', first', shape'⟩ := first_lookupText input textV
      rw [same] at first
      obtain rfl := Option.some.inj (first.symm.trans first')
      exact absurd (shape.symm.trans shape') differ

theorem lookupText_eq_iff (plain : key.Plain) (input : v.IsInput) (shapes : key.shape = v.shape) :
    key.lookupText = v.lookupText ↔ (key == v) = true := by
  rcases input with plainV | ⟨y, rfl⟩
  · cases plain with
    | null =>
      cases plainV with
      | null => exact iff_of_true rfl rfl
      | _ => cases shapes
    | boolean b =>
      cases plainV with
      | boolean c => rw [beq_boolean]; cases b <;> cases c <;> simp [lookupText, text]
      | _ => cases shapes
    | number finite =>
      cases plainV with
      | number => exact lookupText_number_iff finite
      | _ => cases shapes
    | string s =>
      cases plainV with
      | string t => exact beq_string.symm
      | _ => cases shapes
    | array plain =>
      cases plainV with
      | array plainV => exact render_eq_iff (.array plain) (.array plainV)
      | _ => cases shapes
    | object plain =>
      cases plainV with
      | object plainV => exact render_eq_iff (.object plain) (.object plainV)
      | _ => cases shapes
  · cases plain with
    | number finite => exact lookupText_number_iff finite
    | _ => cases shapes

end Value

/-! ## The table of a categorical function -/

/-- The key of a stop has the shape of an input and equals it. -/
def Stop.Matches (stop : Stop ν) (v : Value ν) : Prop :=
  (Value.ofJson stop.key).shape = v.shape ∧ (Value.ofJson stop.key == v) = true

instance (stop : Stop ν) (v : Value ν) : Decidable (stop.Matches v) :=
  inferInstanceAs (Decidable (_ ∧ _))

namespace StopTable

variable {s : PropertySpec ν}

theorem exists_output_of_mem {i : Nat} {stops : List (Stop ν)} {table : List (String × Value ν)}
    (made : categoricalStops s i stops = .ok table) {stop : Stop ν} (mem : stop ∈ stops) :
    ∃ v, s.parseValue? stop.output = some v := by
  induction stops generalizing i table with
  | nil => cases mem
  | cons first rest ih =>
    obtain ⟨v, more, parsed, later, _⟩ := categoricalStops_cons made
    rcases List.mem_cons.mp mem with rfl | mem
    · exact ⟨v, parsed⟩
    · exact ih later mem

/-- Looking a text up finds the output of the last stop whose key has that text. -/
theorem lookup_categoricalStops {i : Nat} {stops : List (Stop ν)} {table : List (String × Value ν)}
    (made : categoricalStops s i stops = .ok table) (text : String) :
    table.reverse.lookup text =
      (stops.reverse.find? fun stop => text == (Value.ofJson stop.key).lookupText).bind
        fun stop => s.parseValue? stop.output := by
  induction stops generalizing i table with
  | nil =>
    obtain rfl := Except.ok.inj made
    rfl
  | cons stop rest ih =>
    obtain ⟨v, more, parsed, later, rfl⟩ := categoricalStops_cons made
    rw [List.reverse_cons, List.reverse_cons, List.lookup_append, List.find?_append, ih later]
    cases found : rest.reverse.find? fun stop => text == (Value.ofJson stop.key).lookupText with
    | some last =>
      obtain ⟨w, output⟩ :=
        exists_output_of_mem later (List.mem_reverse.mp (List.mem_of_find?_eq_some found))
      rw [Option.bind_some, output, Option.some_or, Option.some_or, Option.bind_some, output]
    | none =>
      rw [Option.bind_none, Option.none_or, Option.none_or, List.lookup_cons, List.find?_cons]
      cases text == (Value.ofJson stop.key).lookupText with
      | true => exact parsed.symm
      | false => rfl

end StopTable

theorem PropertySpec.default_eq {s : PropertySpec ν} {given : Option (Json ν)}
    {default : Option (Value ν)} (resolved : s.resolveDefault given = .ok default) :
    default.or (s.default.map .ofJson) = (given.or s.default).bind s.parseValue? := by
  rcases default_cases resolved with ⟨inForce, none⟩ | ⟨_, _, inForce, parsed, stands⟩
  · rw [inForce, none]
    rfl
  · rw [inForce, stands, Option.bind_some, parsed]

/-- A categorical function yields the output of the last stop whose key is looked up as the input,
for inputs of the shape of the first key, and the default else. -/
theorem StopFunction.evaluate_of_make {p : FunctionParameters ν} {s : PropertySpec ν}
    {space : ColorSpace} {f : StopFunction ν} (made : make p s .categorical space = .ok f) :
    ∃ first, p.stops.head? = some first ∧
      (∀ stop ∈ p.stops, ∃ v, s.parseValue? stop.output = some v) ∧
      ∀ v : Value ν, f.evaluate (some v) =
      (if v.shape = (Value.ofJson first.key).shape then
        (p.stops.reverse.find? fun stop =>
          v.lookupText == (Value.ofJson stop.key).lookupText).bind fun stop =>
            s.parseValue? stop.output
      else none).or ((p.default.or s.default).bind s.parseValue?) := by
  obtain ⟨table, default, tableMade, resolved, rfl⟩ := eq_of_make made
  cases StopTable.made_of_make tableMade with
  | numeric rule => simp at rule
  | @categorical first outputs starts listed =>
    refine ⟨first, starts, fun _ => StopTable.exists_output_of_mem listed, fun v => ?_⟩
    change ((if v.shape = _ then outputs.reverse.lookup v.lookupText else none).or default).or _ = _
    rw [Option.or_assoc, PropertySpec.default_eq resolved, StopTable.lookup_categoricalStops listed]

theorem Stop.lookupText_iff_matches [Scalar.Legible ν] {stop : Stop ν} {v : Value ν}
    (plain : (Value.ofJson stop.key).Plain) (input : v.IsInput)
    (unspelled : ¬ (Value.ofJson stop.key).Spells v ∧ ¬ v.Spells (.ofJson stop.key)) :
    (v.lookupText == (Value.ofJson stop.key).lookupText) = true ↔ stop.Matches v := by
  rw [beq_iff_eq]
  constructor
  · intro same
    have shapes : (Value.ofJson stop.key).shape = v.shape := by
      by_contra differ
      exact (Value.spells_of_lookupText plain input same.symm differ).elim unspelled.1 unspelled.2
    exact ⟨shapes, (Value.lookupText_eq_iff plain input shapes).mp same.symm⟩
  · rintro ⟨shapes, equal⟩
    exact ((Value.lookupText_eq_iff plain input shapes).mpr equal).symm

theorem find?_lookupText_eq_none {stops : List (Stop ν)} {v : Value ν}
    (looked : ∀ stop ∈ stops,
      (v.lookupText == (Value.ofJson stop.key).lookupText) = true ↔ stop.Matches v)
    (unmatched : ∀ stop ∈ stops, ¬ stop.Matches v) :
    (stops.reverse.find? fun stop => v.lookupText == (Value.ofJson stop.key).lookupText) =
      none := by
  rw [List.find?_eq_none]
  intro stop mem
  have mem := List.mem_reverse.mp mem
  exact mt (looked stop mem).mp (unmatched stop mem)

theorem find?_reverse_of_last {α : Type} {q : α → Bool} (before : List α) {after : List α} {x : α}
    (holds : q x = true) (last : ∀ y ∈ after, ¬ q y = true) :
    (before ++ x :: after).reverse.find? q = some x := by
  rw [List.find?_eq_some_iff_append]
  refine ⟨holds, after.reverse, before.reverse, ?_, ?_⟩
  · rw [List.reverse_append, List.reverse_cons, List.append_assoc]
    rfl
  · intro y mem
    simpa using last y (List.mem_reverse.mp mem)

namespace CompiledFunction

variable {p : FunctionParameters ν} {s : PropertySpec ν} {f : CompiledFunction ν} {env : Env ν}
  {v : Value ν}

/-- The input that a function of one input takes: the value of a property, or the zoom. -/
inductive Takes (p : FunctionParameters ν) (env : Env ν) : Value ν → Prop
  | property {name : String} {j : Json ν} : p.property = some name → env.property? name = some j →
    (Value.ofJson j).Plain → Takes p env (.ofJson j)
  | zoom {z : ν} : p.property = none → env.globals.zoom = some z → Takes p env (.number z)

theorem Takes.isInput (taken : Takes p env v) : v.IsInput := by
  cases taken with
  | property _ _ plain => exact Or.inl plain
  | zoom => exact Or.inr ⟨_, rfl⟩

omit [Scalar ν] in
theorem ruleOf_of_categorical (categorical : p.typeName = some "categorical") :
    ruleOf p s = .ok .categorical := by
  rw [ruleOf, categorical]
  rfl

theorem Takes.input?_eq (taken : Takes p env v) : input? p env = some v := by
  cases taken with
  | property named found _ => simp [input?, named, found]
  | zoom unnamed zoomed => simp [input?, unnamed, zoomed]

/-- A categorical function that is not composite yields the default for inputs of another shape
than the first key has.  For others the last stop decides of which the key has the input's shape and
equals it, and the default stands in where there is none, as long as no key of another shape is a
text that spells the input, nor the input one that spells a key. -/
theorem evaluate_categorical [Scalar.Legible ν] (compiled : compile p s = .ok f)
    (simple : p.isComposite = false) (categorical : p.typeName = some "categorical")
    (plain : ∀ stop ∈ p.stops, (Value.ofJson stop.key).Plain) (taken : Takes p env v) :
    ∃ first, p.stops.head? = some first ∧
      (v.shape ≠ (Value.ofJson first.key).shape →
        f.evaluate env = (p.default.or s.default).bind s.parseValue?) ∧
      (v.shape = (Value.ofJson first.key).shape →
        (∀ stop ∈ p.stops,
          ¬ (Value.ofJson stop.key).Spells v ∧ ¬ v.Spells (.ofJson stop.key)) →
        (∀ before stop after, p.stops = before ++ stop :: after → stop.Matches v →
          (∀ later ∈ after, ¬ later.Matches v) →
          ∃ output, s.parseValue? stop.output = some output ∧ f.evaluate env = some output) ∧
        ((∀ stop ∈ p.stops, ¬ stop.Matches v) →
          f.evaluate env = (p.default.or s.default).bind s.parseValue?)) := by
  obtain ⟨type, space, ruled, _, made⟩ := compileSimple_of_compile compiled simple
  obtain rfl := Except.ok.inj (ruled.symm.trans (ruleOf_of_categorical categorical))
  obtain ⟨g, made, evaluated⟩ := evaluate_eq_of_compileSimple made env
  rw [taken.input?_eq] at evaluated
  obtain ⟨first, starts, outputs, found⟩ := StopFunction.evaluate_of_make made
  refine ⟨first, starts, fun differ => ?_, fun shapes unspelled => ?_⟩
  · rw [evaluated, found, if_neg differ]
    rfl
  have looked (stop : Stop ν) (mem : stop ∈ p.stops) :=
    Stop.lookupText_iff_matches (plain stop mem) taken.isInput (unspelled stop mem)
  refine ⟨?_, fun none => ?_⟩
  · intro before stop after split matching last
    have mem : stop ∈ p.stops := by
      rw [split]
      exact List.mem_append_right _ List.mem_cons_self
    have missed (later : Stop ν) (memLater : later ∈ after) :
        ¬ (v.lookupText == (Value.ofJson later.key).lookupText) = true := by
      have memStops : later ∈ p.stops := by
        rw [split]
        exact List.mem_append_right _ (List.mem_cons_of_mem _ memLater)
      exact mt (looked later memStops).mp (last later memLater)
    obtain ⟨output, parsed⟩ := outputs stop mem
    refine ⟨output, parsed, ?_⟩
    rw [evaluated, found, if_pos shapes, split,
      find?_reverse_of_last before ((looked stop mem).mpr matching) missed, Option.bind_some,
      parsed]
    rfl
  · rw [evaluated, found, if_pos shapes, find?_lookupText_eq_none looked none]
    rfl

/-- Names of numbers, of lists and of a text; zero is named twice, the second time without its
sign. -/
def namedNumbers : FunctionParameters Float where
  typeName := some "categorical"
  property := some "p"
  base := none
  colorSpace := none
  default := some (.str "other")
  stops := [⟨.int 0, .str "zero"⟩, ⟨.arr [.int 1, .null], .str "list"⟩, ⟨.str "x", .str "text"⟩,
    ⟨.float (-0.0), .str "nothing"⟩, ⟨.int 1, .str "one"⟩]

theorem evaluate_categorical_of_zeros : ∃ f, compile namedNumbers (.ofType "string") = .ok f ∧
    f.evaluate ⟨⟨none, none⟩, some ⟨none, none, [("p", .int 0)]⟩⟩ = some (.string "nothing") := by
  obtain ⟨f, compiled⟩ : ∃ f, compile namedNumbers (.ofType "string") = .ok f := ⟨_, rfl⟩
  have number (n : Int) (finite : Scalar.isFinite (Scalar.ofInt n : Float) = true) :
      (Value.ofJson (.int n : Json Float)).Plain := .number finite
  have one := number 1 (by decide +kernel)
  have plain : ∀ stop ∈ namedNumbers.stops, (Value.ofJson stop.key).Plain := by
    have list : (Value.ofJson (.arr [.int 1, .null] : Json Float)).Plain :=
      .array (List.forall_mem_cons.mpr ⟨one, List.forall_mem_singleton.mpr .null⟩)
    have negative : (Value.ofJson (.float (-0.0) : Json Float)).Plain :=
      .number (by decide +kernel)
    simp only [namedNumbers, List.forall_mem_cons]
    exact ⟨number 0 (by decide +kernel), list, .string "x", negative, one, List.forall_mem_nil _⟩
  have taken : Takes namedNumbers ⟨⟨none, none⟩, some ⟨none, none, [("p", .int 0)]⟩⟩
      (.ofJson (.int 0)) := .property rfl rfl (number 0 (by decide +kernel))
  have unspelled : ∀ stop ∈ namedNumbers.stops,
      ¬ (Value.ofJson stop.key).Spells (.ofJson (.int 0)) ∧
        ¬ (Value.ofJson (.int 0)).Spells (Value.ofJson stop.key) := by
    have differs : "x" ≠ (Value.ofJson (.int 0 : Json Float)).lookupText := by decide +kernel
    intro stop mem
    simp only [namedNumbers, List.mem_cons, List.not_mem_nil, or_false] at mem
    constructor
    · rintro ⟨_, same⟩
      rcases mem with rfl | rfl | rfl | rfl | rfl <;>
        first | exact differs (Value.string.inj same) | cases same
    · rintro ⟨_, same⟩
      cases same
  obtain ⟨first, starts, _, decides⟩ := evaluate_categorical compiled rfl rfl plain taken
  obtain rfl := Option.some.inj starts
  have last : ∀ later ∈ [(⟨.int 1, .str "one"⟩ : Stop Float)],
      ¬ later.Matches (.ofJson (.int 0)) := List.forall_mem_singleton.mpr (by decide +kernel)
  obtain ⟨output, parsed, evaluated⟩ := (decides rfl unspelled).1
    [⟨.int 0, .str "zero"⟩, ⟨.arr [.int 1, .null], .str "list"⟩, ⟨.str "x", .str "text"⟩]
    ⟨.float (-0.0), .str "nothing"⟩ _ rfl ⟨rfl, by decide +kernel⟩ last
  obtain rfl := Option.some.inj parsed
  exact ⟨f, compiled, evaluated⟩

def numberAndText : FunctionParameters Float where
  typeName := some "categorical"
  property := some "p"
  base := none
  colorSpace := none
  default := none
  stops := [⟨.int 1, .str "a"⟩, ⟨.str "1", .str "b"⟩]

/-- A text key that spells a number takes the place of the key that is the number. -/
theorem text_key_answers_number : ∃ f, compile numberAndText (.ofType "string") = .ok f ∧
    f.evaluate ⟨⟨none, none⟩, some ⟨none, none, [("p", .int 1)]⟩⟩ = some (.string "b") ∧
      Stop.Matches (⟨.int 1, .str "a"⟩ : Stop Float) (.ofJson (.int 1)) ∧
        ¬ Stop.Matches (⟨.str "1", .str "b"⟩ : Stop Float) (.ofJson (.int 1)) := by
  refine ⟨_, rfl, ?_, ?_, ?_⟩
  · rfl
  · decide +kernel
  · decide +kernel

end CompiledFunction

end MapStyle
