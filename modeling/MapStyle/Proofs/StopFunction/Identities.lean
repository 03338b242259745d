import MapStyle.Proofs.StopFunction.Defaults

/-!
# Functions that take their input itself

Under the identity rule a function yields what its property makes of the input, and the default
where it makes nothing of it.  A composite function does so at every zoom, since the functions of
all its zooms have one input; the values of an `enum` are such a property.  There an input is let
through by the text it is looked up by, so a text is let through just where it is allowed, and any
other input where an allowed text spells it.
-/

set_option autoImplicit false

namespace MapStyle

variable {ν : Type} [Scalar ν]

theorem PropertySpec.blend_of_not_isInterpolatable {s : PropertySpec ν}
    (held : s.isInterpolatable = false) (space : ColorSpace) (a b : Value ν) (t : ν) :
    s.blend space a b t = a := by
  rw [blend, held]
  rfl

namespace CompiledFunction

variable {p : FunctionParameters ν} {s : PropertySpec ν} {f : CompiledFunction ν} {env : Env ν}

omit [Scalar ν] in
theorem ruleOf_of_identity (identity : p.typeName = some "identity") :
    ruleOf p s = .ok .identity := by
  rw [ruleOf, identity]
  rfl

/-- What the property makes of the input, or the default. -/
def taken (p : FunctionParameters ν) (s : PropertySpec ν) (env : Env ν) : Option (Value ν) :=
  ((input? p env).bind s.identity?).or ((p.default.or s.default).bind s.parseValue?)

theorem evaluate_taken_of_compileSimple {space : ColorSpace}
    (made : compileSimple p s .identity space = .ok f) : f.evaluate env = taken p s env := by
  obtain ⟨g, made, evaluated⟩ := evaluate_eq_of_compileSimple made env
  rw [evaluated, StopFunction.evaluate_identity made]
  rfl

/-- A function under the identity rule for a property that is held between zooms takes its input,
except where a composite one has no zoom. -/
theorem evaluate_eq_taken (held : s.isInterpolatable = false)
    (identity : p.typeName = some "identity") (compiled : compile p s = .ok f) :
    f.evaluate env =
      if p.isComposite = true ∧ env.globals.zoom = none then
        (p.default.or s.default).bind s.parseValue?
      else taken p s env := by
  revert identity
  refine compile_induction (motive := fun p f => p.typeName = some "identity" → f.evaluate env =
    if p.isComposite = true ∧ env.globals.zoom = none then
      (p.default.or s.default).bind s.parseValue?
    else taken p s env) ?_ ?_ compiled
  · intro p f type space simple ruled _ made identity
    cases Except.ok.inj (ruled.symm.trans (ruleOf_of_identity identity))
    rw [evaluate_taken_of_compileSimple made, if_neg (by simp [simple])]
  · intro p f parts composite each identity
    cases zoomed : env.globals.zoom with
    | none =>
      rw [if_pos ⟨composite, rfl⟩]
      exact parts.evaluate_zoomless zoomed
    | some zoom =>
      rw [if_neg (by simp)]
      apply parts.evaluate_uniform composite zoomed
      · intro stop mem
        obtain ⟨g, _, holds⟩ := each stop mem
        rw [holds identity, if_neg (by simp [zoomed])]
        rfl
      · intro v _ t
        exact PropertySpec.blend_of_not_isInterpolatable held parts.space v v t

/-! ## Values of an enum -/

theorem default_of_enum (isEnum : s.typeName = "enum") (given : Option (Json ν)) :
    (given.or s.default).bind s.parseValue? = (given.or s.default).map .ofJson := by
  have plain : s.hasParser = false := by simp [PropertySpec.hasParser, isEnum]
  cases given.or s.default with
  | none => rfl
  | some j => exact PropertySpec.parseValue?_of_not_hasParser plain j

/-- A function under the identity rule for an `enum` yields its input where the text of that is
allowed, and the default else.  If no allowed text spells an input of another kind, it yields the
default or an allowed text. -/
theorem evaluate_identity_of_enum (isEnum : s.typeName = "enum")
    (identity : p.typeName = some "identity") (compiled : compile p s = .ok f) (env : Env ν) :
    f.evaluate env =
      (if p.isComposite = true ∧ env.globals.zoom = none then none
        else (input? p env).filter fun v => v.lookupText ∈ s.enumValues).or
          ((p.default.or s.default).map .ofJson) ∧
    ((∀ v, input? p env = some v → v.lookupText ∈ s.enumValues → v.shape = .string) →
      f.evaluate env = (p.default.or s.default).map .ofJson ∨
        ∃ text ∈ s.enumValues, f.evaluate env = some (.string text)) := by
  have held : s.isInterpolatable = false := by
    simp [PropertySpec.isInterpolatable, PropertySpec.hasParser, isEnum]
  have yielded : f.evaluate env =
      (if p.isComposite = true ∧ env.globals.zoom = none then none
        else (input? p env).filter fun v => v.lookupText ∈ s.enumValues).or
          ((p.default.or s.default).map .ofJson) := by
    rw [evaluate_eq_taken held identity compiled, default_of_enum isEnum]
    split
    · rfl
    · rw [taken, default_of_enum isEnum]
      congr 1
      cases input? p env with
      | none => rfl
      | some v => simp only [Option.bind_some, PropertySpec.identity?_of_enum isEnum,
          Option.filter_some, decide_eq_true_eq]
  refine ⟨yielded, ?_⟩
  intro texts
  rw [yielded]
  split
  · exact Or.inl rfl
  · cases passed : (input? p env).filter fun v => v.lookupText ∈ s.enumValues with
    | none => exact Or.inl rfl
    | some v =>
      obtain ⟨isInput, allowed⟩ := Option.filter_eq_some_iff.mp passed
      have allowed : v.lookupText ∈ s.enumValues := of_decide_eq_true allowed
      have isText := texts v isInput allowed
      cases v with
      | string text => exact Or.inr ⟨text, allowed, rfl⟩
      | _ => cases isText

def ownSides : FunctionParameters Float where
  typeName := some "identity"
  property := some "p"
  base := none
  colorSpace := none
  default := none
  stops := [⟨.obj [("value", .null), ("zoom", .int 1)], .null⟩,
    ⟨.obj [("value", .null), ("zoom", .int 3)], .null⟩]

def sides : PropertySpec Float :=
  ⟨"enum", some (.str "left"), some (.obj [("left", .obj []), ("right", .obj [])]), none, none,
    none⟩

def askingFor (side : Json Float) : Env Float :=
  ⟨⟨some (Scalar.ofInt 2), none⟩, some ⟨none, none, [("p", side)]⟩⟩

/-- Between the zooms a side is passed on, and a number gives way to the default. -/
theorem evaluate_identity_of_sides : ∃ f, compile ownSides sides = .ok f ∧
    (f.evaluate (askingFor (.str "right")) = some (.string "right") ∧
      (f.evaluate (askingFor (.str "right")) = some (.string "left") ∨
        ∃ text ∈ sides.enumValues, f.evaluate (askingFor (.str "right")) = some (.string text))) ∧
    f.evaluate (askingFor (.int 5)) = some (.string "left") := by
  obtain ⟨f, compiled⟩ : ∃ f, compile ownSides sides = .ok f := ⟨_, rfl⟩
  refine ⟨f, compiled, ⟨?_, ?_⟩, ?_⟩
  · exact (evaluate_identity_of_enum rfl rfl compiled _).1
  · apply (evaluate_identity_of_enum rfl rfl compiled _).2
    intro v asked _
    cases Option.some.inj asked
    rfl
  · rw [(evaluate_identity_of_enum rfl rfl compiled _).1]
    have refused : ¬ (Value.number (Scalar.ofInt 5 : Float)).lookupText ∈ sides.enumValues := by
      decide +kernel
    have asked : input? ownSides (askingFor (.int 5)) = some (.number (Scalar.ofInt 5)) := rfl
    rw [if_neg (by simp [askingFor]), asked, Option.filter_some, if_neg (by simpa using refused)]
    rfl

def ownValue : FunctionParameters Float := ⟨some "identity", some "p", none, none, none, []⟩

def onlyOne : PropertySpec Float := ⟨"enum", none, some (.arr [.str "1"]), none, none, none⟩

/-- A number that an allowed text spells is passed on as a number: there is no default, and it is no
text. -/
theorem spelled_number_passes_enum : ∃ f, compile ownValue onlyOne = .ok f ∧
    ownValue.default.or onlyOne.default = none ∧
    f.evaluate ⟨.blank, some ⟨none, none, [("p", .int 1)]⟩⟩ = some (.number (Scalar.ofInt 1)) := by
  obtain ⟨f, compiled⟩ : ∃ f, compile ownValue onlyOne = .ok f := ⟨_, rfl⟩
  refine ⟨f, compiled, rfl, ?_⟩
  have allowed : (Value.number (Scalar.ofInt 1 : Float)).lookupText ∈ onlyOne.enumValues := by
    decide +kernel
  have input : input? ownValue ⟨.blank, some ⟨none, none, [("p", .int 1)]⟩⟩ =
      some (.number (Scalar.ofInt 1)) := rfl
  have simple : ownValue.isComposite = false := rfl
  rw [evaluate_eq_taken rfl rfl compiled, if_neg (by simp [simple]), taken, input,
    Option.bind_some, PropertySpec.identity?_of_enum rfl, if_pos allowed]
  rfl

end CompiledFunction

end MapStyle
