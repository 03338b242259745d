import MapStyle.Number.Float
import MapStyle.Proofs.StopFunction.Outputs

/-!
# Functions for parsed properties

Properties of colors, paddings, and lists of numbers or colors are written otherwise than as plain
data.  A function for such a property yields only parsed values, whatever its rule and wherever it
takes its input from.
-/

set_option autoImplicit false

namespace MapStyle

variable {ν : Type} [Scalar ν]

/-- The values of the properties that have a parser, by the name of their type. -/
inductive Value.Parsed : String → Value ν → Prop
  | color (c : Color ν) : Parsed "color" (.color c)
  | padding (p : Padding ν) : Parsed "padding" (.padding p)
  | numberArray (xs : List ν) : Parsed "numberArray" (.numberArray xs)
  | colorArray (cs : List (Color ν)) : Parsed "colorArray" (.colorArray cs)

theorem Value.Parsed.blend {name : String} {a : Value ν} (parsed : Parsed name a)
    (space : ColorSpace) (b : Value ν) (t : ν) : Parsed name (a.blend space b t) := by
  cases parsed with
  | color c => cases b <;> exact .color _
  | padding p => cases b <;> exact .padding _
  | numberArray xs => cases b <;> exact .numberArray _
  | colorArray cs =>
    cases b with
    | colorArray ds =>
      rw [Value.blend]
      split <;> exact .colorArray _
    | _ => exact .colorArray _

namespace PropertySpec

variable {s : PropertySpec ν}

omit [Scalar ν] in
theorem hasParser_cases (parser : s.hasParser = true) :
    s.typeName = "color" ∨ s.typeName = "padding" ∨ s.typeName = "numberArray" ∨
      s.typeName = "colorArray" := by
  simpa [hasParser, or_assoc] using parser

theorem parsed_of_parseValue? (parser : s.hasParser = true) {j : Json ν} {v : Value ν}
    (parsed : s.parseValue? j = some v) : v.Parsed s.typeName := by
  unfold parseValue? at parsed
  rcases hasParser_cases parser with name | name | name | name <;> rw [name] at parsed ⊢ <;>
    obtain ⟨w, _, rfl⟩ := Option.map_eq_some_iff.mp parsed
  · exact .color w
  · exact .padding w
  · exact .numberArray w
  · exact .colorArray w

/-- An input taken as an output is parsed: colors are read from text, the others from the document
of the input. -/
theorem parsed_of_identity? (parser : s.hasParser = true) {input v : Value ν}
    (identity : s.identity? input = some v) : v.Parsed s.typeName := by
  unfold identity? at identity
  split at identity
  · cases identity
  · rcases hasParser_cases parser with name | name | name | name
    · simp only [name] at identity
      obtain ⟨c, _, rfl⟩ := Option.map_eq_some_iff.mp identity
      exact name ▸ .color c
    all_goals
      simp only [name] at identity
      exact parsed_of_parseValue? parser identity

theorem yields_parsed (parser : s.hasParser = true) : s.Yields (Value.Parsed s.typeName) where
  parsed _ _ parsed := parsed_of_parseValue? parser parsed
  identity _ _ identity := parsed_of_identity? parser identity
  blend space a b t ofA _ := by
    unfold PropertySpec.blend
    split
    · exact ofA.blend space b t
    · exact ofA

end PropertySpec

namespace CompiledFunction

variable {s : PropertySpec ν} {p : FunctionParameters ν} {f : CompiledFunction ν}

/-- Whatever a function for a property with a parser yields is a value of that property: plain data
reaches no output through stops, blends, inputs or defaults. -/
theorem evaluate_parsed (compiled : compile p s = .ok f) {env : Env ν} {v : Value ν}
    (evaluated : f.evaluate env = some v) :
    (s.typeName = "color" → ∃ c, v = .color c) ∧ (s.typeName = "padding" → ∃ q, v = .padding q) ∧
      (s.typeName = "numberArray" → ∃ xs, v = .numberArray xs) ∧
      (s.typeName = "colorArray" → ∃ cs, v = .colorArray cs) := by
  cases parser : s.hasParser with
  | false =>
    simp only [PropertySpec.hasParser, Bool.or_eq_false_iff, decide_eq_false_iff_not] at parser
    simp [parser]
  | true =>
    have parsed := evaluate_yields (PropertySpec.yields_parsed parser) compiled evaluated
    generalize s.typeName = kind at parsed
    cases parsed <;> simp

def categoryColors : FunctionParameters Float where
  typeName := some "categorical"
  property := some "p"
  base := none
  colorSpace := none
  default := none
  stops := [⟨.obj [("value", .str "a"), ("zoom", .int 0)], .str "#f00"⟩,
    ⟨.obj [("value", .str "b"), ("zoom", .int 2)], .str "#0f0"⟩]

def colorWithDefault : PropertySpec Float := (PropertySpec.ofType "color").withDefault (.str "#00f")

/-- Between its zooms the function blends the output of a stop and the default. -/
theorem evaluate_parsed_of_category : ∃ f v, compile categoryColors colorWithDefault = .ok f ∧
    f.evaluate ⟨⟨some (Scalar.ofInt 1), none⟩, some ⟨none, none, [("p", .str "a")]⟩⟩ = some v ∧
      ∃ c, v = .color c := by
  have compiled : ∃ f v, compile categoryColors colorWithDefault = .ok f ∧
      f.evaluate ⟨⟨some (Scalar.ofInt 1), none⟩, some ⟨none, none, [("p", .str "a")]⟩⟩ = some v :=
    ⟨_, _, rfl, rfl⟩
  obtain ⟨f, v, compiled, evaluated⟩ := compiled
  exact ⟨f, v, compiled, evaluated, (evaluate_parsed compiled evaluated).1 rfl⟩

end CompiledFunction

end MapStyle
