import MapStyle.Number.Float
import MapStyle.Proofs.Compile.TypeSoundness
import MapStyle.StyleExpression

/-!
# Usable values

A property can use a value that is not null, is a number if it claims to be one, is of the type that
the property expects, and is allowed if the property is an `enum`.  Evaluating an expression for a
property passes on the values that the property can use and puts the default in the place of
everything else.
-/

set_option autoImplicit false

namespace MapStyle

variable {ν : Type} [Platform ν]

/-- A value that a property can use. -/
structure PropertySpec.Usable (spec : PropertySpec ν) (v : Value ν) : Prop where
  notNull : v ≠ .null
  isNumber : ∀ x, v = .number x → Scalar.isNaN x = false
  conforms : spec.expectedType.accepts v.ty = true
  allowed : spec.typeName = "enum" → ∃ text, v = .string text ∧ text ∈ spec.enumValues

namespace StyleExpression

variable {s : StyleExpression ν} {spec : PropertySpec ν} {v : Value ν}

/-! ## The filter of an enum -/

theorem checkEnum_of_allowed (given : s.spec = some spec)
    (allowed : spec.typeName = "enum" → ∃ text, v = .string text ∧ text ∈ spec.enumValues) :
    s.checkEnum v = .ok v := by
  by_cases isEnum : spec.typeName = "enum"
  · obtain ⟨text, rfl, mem⟩ := allowed isEnum
    simp [checkEnum, given, isEnum, Value.asString?, PropertySpec.hasEnumValue, mem]
  · simp [checkEnum, given, isEnum]

theorem checkEnum_of_not_allowed (given : s.spec = some spec) (isEnum : spec.typeName = "enum")
    (refused : ∀ text, v = .string text → text ∉ spec.enumValues) :
    ∃ e, s.checkEnum v = .error e := by
  have unmatched : v.asString?.any spec.hasEnumValue = false := by
    cases v with
    | string text => simpa [Value.asString?, PropertySpec.hasEnumValue] using refused text rfl
    | _ => rfl
  exact ⟨_, by simp only [checkEnum, given, isEnum, unmatched, if_true]; rfl⟩

/-! ## What becomes of an outcome -/

theorem settle_of_error (e : EvalError) : (s.settle (.error e)).1 = s.default := rfl

theorem settle_of_null : (s.settle (.ok .null)).1 = s.default := rfl

theorem settle_of_nan {x : ν} (nan : Scalar.isNaN x = true) :
    (s.settle (.ok (.number x))).1 = s.default := by
  simp [settle, Value.asNumber?, nan]

/-- A value that is there and no number only in name is passed on if the enum lets it through. -/
theorem settle_of_number (notNull : v ≠ .null)
    (isNumber : ∀ x, v = .number x → Scalar.isNaN x = false) :
    (s.settle (.ok v)).1 = match s.checkEnum v with
      | .ok w => w
      | .error _ => s.default := by
  have present : v.asNumber?.any Scalar.isNaN = false := by
    cases v with
    | number x => simpa [Value.asNumber?] using isNumber x rfl
    | _ => rfl
  have opened : s.settle (.ok v) = match s.checkEnum v with
      | .ok w => (w, none)
      | .error e => (s.default, some e) := by
    cases v with
    | null => exact absurd rfl notNull
    | _ => simp only [settle, present]; rfl
  rw [opened]
  cases s.checkEnum v <;> rfl

theorem settle_of_usable (given : s.spec = some spec) (usable : spec.Usable v) :
    (s.settle (.ok v)).1 = v := by
  rw [settle_of_number usable.notNull usable.isNumber, checkEnum_of_allowed given usable.allowed]

/-- A value of the right type, or null, that the property cannot use gives way to the default. -/
theorem settle_of_not_usable (given : s.spec = some spec)
    (fits : spec.expectedType.accepts v.ty = true ∨ v = .null) (unusable : ¬ spec.Usable v) :
    (s.settle (.ok v)).1 = s.default := by
  by_cases notNull : v ≠ .null
  · by_cases isNumber : ∀ x, v = .number x → Scalar.isNaN x = false
    · have conforms := fits.resolve_right notNull
      by_cases allowed :
          spec.typeName = "enum" → ∃ text, v = .string text ∧ text ∈ spec.enumValues
      · exact absurd ⟨notNull, isNumber, conforms, allowed⟩ unusable
      · obtain ⟨isEnum, refused⟩ := Classical.not_imp.mp allowed
        obtain ⟨e, stopped⟩ := checkEnum_of_not_allowed given isEnum
          fun text same mem => refused ⟨text, same, mem⟩
        rw [settle_of_number notNull isNumber, stopped]
    · obtain ⟨x, unreal⟩ := Classical.not_forall.mp isNumber
      obtain ⟨rfl, nan⟩ := Classical.not_imp.mp unreal
      exact settle_of_nan (by simpa using nan)
  · obtain rfl := Classical.not_not.mp notNull
    exact settle_of_null

/-! ## Compiled expressions -/

theorem compile_eq_ok {j : Json ν} (compiled : compile j (some spec) = .ok s) :
    ∃ e, compileExpr .standard j (some spec.expectedType) = .ok e ∧
      s = ⟨e, some spec, defaultOf (some spec)⟩ := by
  simp only [compile, compileWith, Option.map_some] at compiled
  split at compiled
  · rename_i e done
    exact ⟨e, done, (Except.ok.inj compiled).symm⟩
  · cases compiled

/-- An expression compiled for a property yields values of the type that the property expects, or
null where the kind of geometry is not known. -/
theorem evaluate_fits {j : Json ν} (compiled : compile j (some spec) = .ok s)
    {globals : Globals ν} {feature : Option (Feature ν)}
    (yielded : s.evaluate globals feature = .ok v) :
    spec.expectedType.accepts v.ty = true ∨ v = .null := by
  obtain ⟨e, done, rfl⟩ := compile_eq_ok compiled
  obtain ⟨typed, accepted⟩ := compileExpr_wellTyped Registry.isStandard_standard done
  rcases typed.eval_conforms yielded with conforms | ⟨_, null, _⟩
  · exact Or.inl (Value.conforms_of_accepts (accepted _ rfl) conforms.accepts)
  · exact Or.inr null

/-- Evaluating with a default yields the value of the expression if the property can use it, and the
default otherwise: after an error, for null and for a value that is no number, among others. -/
theorem evaluateWithDefault_usable {j : Json ν} (compiled : compile j (some spec) = .ok s)
    (globals : Globals ν) (feature : Option (Feature ν)) :
    ((∃ v, s.evaluate globals feature = .ok v ∧ spec.Usable v ∧
        s.evaluateWithDefault globals feature = v) ∨
      ((∀ v, s.evaluate globals feature = .ok v → ¬ spec.Usable v) ∧
        s.evaluateWithDefault globals feature = s.default)) ∧
    (∀ e, s.evaluate globals feature = .error e →
      s.evaluateWithDefault globals feature = s.default) ∧
    (s.evaluate globals feature = .ok .null →
      s.evaluateWithDefault globals feature = s.default) ∧
    ∀ x, s.evaluate globals feature = .ok (.number x) → Scalar.isNaN x = true →
      s.evaluateWithDefault globals feature = s.default := by
  have given : s.spec = some spec := by
    obtain ⟨e, _, rfl⟩ := compile_eq_ok compiled
    rfl
  refine ⟨?_, ?_, ?_, ?_⟩
  · cases outcome : s.evaluate globals feature with
    | error e =>
      refine Or.inr ⟨fun v impossible => (nomatch impossible), ?_⟩
      rw [evaluateWithDefault, outcome, settle_of_error]
    | ok v =>
      by_cases usable : spec.Usable v
      · refine Or.inl ⟨v, rfl, usable, ?_⟩
        rw [evaluateWithDefault, outcome, settle_of_usable given usable]
      · refine Or.inr ⟨fun w same => Except.ok.inj same ▸ usable, ?_⟩
        have fits := evaluate_fits compiled outcome
        rw [evaluateWithDefault, outcome, settle_of_not_usable given fits usable]
  · intro e outcome
    rw [evaluateWithDefault, outcome, settle_of_error]
  · intro outcome
    rw [evaluateWithDefault, outcome, settle_of_null]
  · intro x outcome nan
    rw [evaluateWithDefault, outcome, settle_of_nan nan]

def alignmentSpec : PropertySpec Float :=
  ⟨"enum", some (.str "left"), some (.arr [.str "left", .str "right"]), none, none, none⟩

def alignment : StyleExpression Float :=
  ⟨.assertion .string [.get (.literal (.string "align") .string) none], some alignmentSpec,
    .string "left"⟩

def featureAt (side : String) : Feature Float := ⟨none, none, [("align", .str side)]⟩

def geometryName : StyleExpression Float := ⟨.access .geometryType, some (.ofType "string"), .null⟩

def zoomNumber : StyleExpression Float := ⟨.zoom, some (.ofType "number"), .null⟩

theorem evaluateWithDefault_usable_of_alignment :
    (compile (.arr [.str "get", .str "align"]) (some alignmentSpec) = .ok alignment ∧
      alignmentSpec.Usable (.string "right") ∧
      alignment.evaluateWithDefault .blank (some (featureAt "right")) = .string "right") ∧
    (alignment.evaluate .blank none = .error (.assertion .string .null) ∧
      alignment.evaluateWithDefault .blank none = .string "left") ∧
    (compile (.arr [.str "geometry-type"]) (some (.ofType "string")) = .ok geometryName ∧
      geometryName.evaluate .blank none = .ok .null ∧
      geometryName.evaluateWithDefault .blank none = .null) ∧
    compile (.arr [.str "zoom"]) (some (.ofType "number")) = .ok zoomNumber ∧
      zoomNumber.evaluate ⟨some Scalar.nan, none⟩ none = .ok (.number Scalar.nan) ∧
      zoomNumber.evaluateWithDefault ⟨some Scalar.nan, none⟩ none = .null := by
  have compiled : compile (.arr [.str "get", .str "align"]) (some alignmentSpec) =
      .ok alignment := by rfl
  have right : alignment.evaluate .blank (some (featureAt "right")) = .ok (.string "right") := by
    rfl
  have usable : alignmentSpec.Usable (.string "right") :=
    ⟨by simp, by simp, by decide, fun _ => ⟨"right", rfl, by decide⟩⟩
  have stopped : alignment.evaluate .blank none = .error (.assertion .string .null) := by rfl
  have named : compile (.arr [.str "geometry-type"]) (some (.ofType "string")) =
      .ok geometryName := by rfl
  have zoomed : compile (.arr [.str "zoom"]) (some (.ofType "number")) = .ok zoomNumber := by rfl
  refine ⟨⟨compiled, usable, ?_⟩, ⟨stopped, ?_⟩, ⟨named, rfl, ?_⟩, zoomed, rfl, ?_⟩
  · rcases (evaluateWithDefault_usable compiled .blank (some (featureAt "right"))).1 with
      ⟨v, yielded, _, same⟩ | ⟨none, _⟩
    · obtain rfl := Except.ok.inj (right.symm.trans yielded)
      exact same
    · exact absurd usable (none _ right)
  · exact (evaluateWithDefault_usable compiled .blank none).2.1 _ stopped
  · exact (evaluateWithDefault_usable named .blank none).2.2.1 rfl
  · exact (evaluateWithDefault_usable zoomed ⟨some Scalar.nan, none⟩ none).2.2.2 _ rfl (by decide)

end StyleExpression

end MapStyle
