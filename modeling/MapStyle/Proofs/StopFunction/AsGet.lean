import MapStyle.Proofs.Json.Numbers
import MapStyle.Proofs.StopFunction.AsInterpolation
import MapStyle.Proofs.StopFunction.Identities
import MapStyle.Proofs.StopFunction.ParsedKinds
import MapStyle.Proofs.Usability

/-!
# Functions that take a property itself, as expressions

A function that takes a property of the feature and the expression that gets this property go
different ways: the one asks what its own property makes of the value, the other checks or converts
the value and stops with an error where that fails.  Both have the same answer, and where they have
none both put the default in its place.
-/

set_option autoImplicit false

namespace MapStyle

variable {ν : Type} [Platform ν]

/-- The types of plain data that an expression is checked for. -/
def Ty.checked : List Ty := [.string, .number, .boolean]

/-- The types that a text, a number or a list is converted to. -/
def Ty.converted : List Ty := [.color, .padding, .numberArray, .colorArray]

namespace PropertySpec

variable {s : PropertySpec ν} {t : Ty}

omit [Platform ν] in
theorem expectedType_of_kind (known : t ∈ Ty.checked ++ Ty.converted) (type : s.typeName = t.kind) :
    s.expectedType = t := by
  simp only [Ty.checked, Ty.converted, List.cons_append, List.nil_append, List.mem_cons,
    List.not_mem_nil, or_false] at known
  rcases known with rfl | rfl | rfl | rfl | rfl | rfl | rfl <;>
    simp [expectedType, type, Ty.kind, Ty.ofName?]

omit [Platform ν] in
theorem typeName_ne_enum (known : t ∈ Ty.checked ++ Ty.converted) (type : s.typeName = t.kind) :
    s.typeName ≠ "enum" := by
  have others : ∀ t ∈ Ty.checked ++ Ty.converted, t.kind ≠ "enum" := by decide
  rw [type]
  exact others t known

theorem identity?_null (notEnum : s.typeName ≠ "enum") : s.identity? .null = none := by
  simp [identity?, Value.isNull, notEnum]

theorem identity?_of_checked (checked : t ∈ Ty.checked) (type : s.typeName = t.kind) (j : Json ν) :
    s.identity? (.ofJson j) =
      if t.accepts (Value.ofJson j).ty then some (.ofJson j) else none := by
  simp only [Ty.checked, List.mem_cons, List.not_mem_nil, or_false] at checked
  rcases checked with rfl | rfl | rfl <;> cases j <;>
    simp [identity?, type, Ty.kind, Value.ofJson, Value.isNull, Value.shape, Shape.name, Value.ty,
      Ty.accepts]

theorem identity?_of_converted (converted : t ∈ Ty.converted) (type : s.typeName = t.kind)
    (j : Json ν) : s.identity? (.ofJson j) = (Value.ofJson j).coerce? t := by
  simp only [Ty.converted, List.mem_cons, List.not_mem_nil, or_false] at converted
  rcases converted with rfl | rfl | rfl | rfl <;> cases j <;>
    simp [identity?, type, Ty.kind, Value.ofJson, Value.isNull, Value.coerce?, Value.asString?,
      parseValue?, Value.toJson, Padding.ofJson?, numbers?, colors?, Json.asNumber?, Json.asItems?,
      Json.asString?]

theorem ty_of_identity? (known : t ∈ Ty.checked ++ Ty.converted) (type : s.typeName = t.kind)
    {j : Json ν} {v : Value ν} (taken : s.identity? (.ofJson j) = some v) : v.ty = t := by
  rcases List.mem_append.mp known with checked | converted
  · rw [identity?_of_checked checked type, Option.ite_none_right_eq_some,
      Option.some.injEq] at taken
    obtain ⟨accepted, rfl⟩ := taken
    simp only [Ty.checked, List.mem_cons, List.not_mem_nil, or_false] at checked
    rcases checked with rfl | rfl | rfl <;> cases j <;> first | rfl | cases accepted
  · rw [identity?_of_converted converted type] at taken
    exact Value.ty_of_coerce? taken

theorem usable_of_identity? (known : t ∈ Ty.checked ++ Ty.converted) (type : s.typeName = t.kind)
    {j : Json ν} (free : j.NaNFree) {v : Value ν} (taken : s.identity? (.ofJson j) = some v) :
    s.Usable v where
  notNull := by
    rintro rfl
    have null : Ty.null = t := ty_of_identity? known type taken
    rw [← null] at known
    exact absurd known (by decide)
  isNumber := by
    rintro x rfl
    have number : Ty.number = t := ty_of_identity? known type taken
    rw [← number] at type
    rw [identity?_of_checked (by decide) type, Option.ite_none_right_eq_some,
      Option.some.injEq] at taken
    have number : j.asNumber? = some x := by
      cases j <;> cases taken.2 <;> rfl
    rw [Scalar.isNaN, free.number number]
    rfl
  conforms := by
    rw [expectedType_of_kind known type, ty_of_identity? known type taken]
    exact Ty.accepts_self t
  allowed := by
    intro isEnum
    exact absurd isEnum (typeName_ne_enum known type)

end PropertySpec

/-! ## Getting a property -/

theorem Expr.eval_getOf (env : Env ν) (name : String) :
    (getOf name).eval env = .ok (.ofJson ((env.property? name).getD .null)) := by
  rw [getOf, eval, eval]
  dsimp only [Value.asString?, Option.getD_some]
  cases env.property? name <;> rfl

/-- Getting a property compiles, and evaluates to what the property takes of the value, with an
error where it takes nothing. -/
theorem PropertySpec.exists_compilesTo_getOf {s : PropertySpec ν} {t : Ty}
    (known : t ∈ Ty.checked ++ Ty.converted) (type : s.typeName = t.kind) (name : String) :
    ∃ e, (Json.getOf name : Json ν).CompilesTo s.expectedType e ∧ ∀ env : Env ν,
      (e.eval env).toOption = s.identity? (.ofJson ((env.property? name).getD .null)) := by
  rw [expectedType_of_kind known type]
  rcases List.mem_append.mp known with checked | converted
  · refine ⟨.assertion t [.getOf name], Json.compilesTo_getOf name ?_ rfl, ?_⟩
    · intro site
      simp only [Ty.checked, List.mem_cons, List.not_mem_nil, or_false] at checked
      rcases checked with rfl | rfl | rfl <;> rfl
    · intro env
      rw [Expr.eval, Expr.evalAssertion, Expr.eval_getOf, identity?_of_checked checked type]
      dsimp only
      split <;> rfl
  · refine ⟨.coercion t (.getOf name), Json.compilesTo_getOf name ?_ rfl, ?_⟩
    · intro site
      simp only [Ty.converted, List.mem_cons, List.not_mem_nil, or_false] at converted
      rcases converted with rfl | rfl | rfl | rfl <;> rfl
    · intro env
      rw [Expr.eval, Expr.eval_getOf, identity?_of_converted converted type]
      dsimp only
      rw [Value.coerce]
      cases (Value.ofJson ((env.property? name).getD .null)).coerce? t <;> rfl

def FunctionParameters.identityOf (name : String) : FunctionParameters ν where
  typeName := some "identity"
  property := some name
  base := none
  colorSpace := none
  default := none
  stops := []

namespace CompiledFunction

variable {s : PropertySpec ν}

theorem evaluate_identityOf (notEnum : s.typeName ≠ "enum") {name : String}
    {f : CompiledFunction ν} (compiled : compile (.identityOf name) s = .ok f) (env : Env ν) :
    f.evaluate env = (s.identity? (.ofJson ((env.property? name).getD .null))).or
      (s.default.bind s.parseValue?) := by
  obtain ⟨type, space, ruled, _, made⟩ := compileSimple_of_compile compiled rfl
  cases Except.ok.inj (ruled.symm.trans (ruleOf_of_identity rfl))
  rw [evaluate_taken_of_compileSimple made]
  show ((((env.property? name).map .ofJson).bind s.identity?).or _) = _
  cases env.property? name with
  | none =>
    show _ = (s.identity? .null).or _
    rw [PropertySpec.identity?_null notEnum]
    rfl
  | some j => rfl

/-- The function that takes a property itself and the expression that gets it yield the same for
every feature, with null for nothing: the value as the property takes it, or the default. -/
theorem identity_agrees_with_get
    (type : s.typeName ∈
      ["string", "number", "boolean", "color", "padding", "numberArray", "colorArray"])
    {name : String} {f : CompiledFunction ν} (compiled : compile (.identityOf name) s = .ok f) :
    ∃ g, StyleExpression.compile (.getOf name) (some s) = .ok g ∧ ∀ globals feature,
      (∀ j, Env.property? ⟨globals, feature⟩ name = some j → j.NaNFree) →
        (f.evaluate ⟨globals, feature⟩).getD .null = g.evaluateWithDefault globals feature := by
  have kinds : s.typeName ∈ (Ty.checked ++ Ty.converted).map Ty.kind := type
  obtain ⟨t, known, kind⟩ := List.mem_map.mp kinds
  obtain ⟨e, compiles, evaluated⟩ := PropertySpec.exists_compilesTo_getOf known kind.symm name
  refine ⟨_, StyleExpression.compile_of_compilesTo compiles, ?_⟩
  intro globals feature free
  have notEnum := PropertySpec.typeName_ne_enum known kind.symm
  rw [evaluate_identityOf notEnum compiled, StyleExpression.evaluateWithDefault,
    StyleExpression.evaluate]
  have same := evaluated ⟨globals, feature⟩
  cases outcome : e.eval ⟨globals, feature⟩ with
  | error err =>
    rw [outcome] at same
    rw [← same, StyleExpression.settle_of_error]
    rfl
  | ok v =>
    rw [outcome] at same
    have free : ((Env.property? ⟨globals, feature⟩ name).getD .null).NaNFree := by
      cases found : Env.property? ⟨globals, feature⟩ name with
      | none => exact .null
      | some j => exact free j found
    have usable := PropertySpec.usable_of_identity? known kind.symm free same.symm
    rw [← same, StyleExpression.settle_of_usable rfl usable]
    rfl

def distances : PropertySpec Float :=
  (PropertySpec.ofType "padding").withDefault (.arr [.int 1, .int 2])

def distant (j : Json Float) : Feature Float := ⟨none, none, [("p", j)]⟩

/-- An empty list names no distances, and one number names all. -/
theorem identity_agrees_with_get_of_distances :
    ∃ f g, compile (.identityOf "p") distances = .ok f ∧
      StyleExpression.compile (.getOf "p") (some distances) = .ok g ∧
      (f.evaluate ⟨.blank, some (distant (.arr []))⟩ = some (.padding ⟨1, 2, 1, 2⟩) ∧
        g.evaluateWithDefault .blank (some (distant (.arr []))) = .padding ⟨1, 2, 1, 2⟩) ∧
      f.evaluate ⟨.blank, some (distant (.int 3))⟩ = some (.padding ⟨3, 3, 3, 3⟩) ∧
        g.evaluateWithDefault .blank (some (distant (.int 3))) = .padding ⟨3, 3, 3, 3⟩ := by
  obtain ⟨f, compiled⟩ : ∃ f, compile (.identityOf "p") distances = .ok f := ⟨_, rfl⟩
  obtain ⟨g, compiles, same⟩ := identity_agrees_with_get (by decide) compiled
  have ofNone : f.evaluate ⟨.blank, some (distant (.arr []))⟩ = some (.padding ⟨1, 2, 1, 2⟩) := by
    rw [evaluate_identityOf (by decide) compiled]
    rfl
  have ofAll : f.evaluate ⟨.blank, some (distant (.int 3))⟩ = some (.padding ⟨3, 3, 3, 3⟩) := by
    rw [evaluate_identityOf (by decide) compiled]
    rfl
  refine ⟨f, g, compiled, compiles, ⟨ofNone, ?_⟩, ofAll, ?_⟩
  · rw [← same, ofNone]
    · rfl
    · rintro j ⟨⟩
      exact .arr (by simp)
  · rw [← same, ofAll]
    · rfl
    · rintro j ⟨⟩
      exact .int (by decide)

end CompiledFunction

end MapStyle
