import MapStyle.Proofs.StopFunction.Identities
import MapStyle.Proofs.StopFunction.Intervals

/-!
# Functions of outputs that do not blend

Where the outputs of a property do not blend, a blend of two stops is the lower one.  So an
exponential function of such a property is the interval function of the same stops, with whatever
base; and so are composite functions of the two, which hold the output of the lower zoom besides.
-/

set_option autoImplicit false

namespace MapStyle

variable {ν : Type} [Scalar ν]

/-- Two compilations are refused for one cause, or make functions that are related. -/
inductive BothMade {α : Type} (R : α → α → Prop) :
    Except FunctionError α → Except FunctionError α → Prop
  | refused (e : FunctionError) : BothMade R (.error e) (.error e)
  | made {f g : α} : R f g → BothMade R (.ok f) (.ok g)

omit [Scalar ν] in
theorem BothMade.cases {α : Type} {R : α → α → Prop} {m n : Except FunctionError α}
    (both : BothMade R m n) :
    (∃ e, m = .error e ∧ n = .error e) ∨ ∃ f g, m = .ok f ∧ n = .ok g ∧ R f g := by
  cases both with
  | refused e => exact Or.inl ⟨e, rfl, rfl⟩
  | made related => exact Or.inr ⟨_, _, rfl, rfl, related⟩

/-- Functions of one kind with stops at the same zooms, which have one output in every context. -/
structure CompiledFunction.Alike (f g : CompiledFunction ν) : Prop where
  kind : f.kind = g.kind
  zoomStops : f.zoomStops = g.zoomStops
  evaluate : ∀ env, f.evaluate env = g.evaluate env

/-- The same definition under another rule and with another base. -/
def FunctionParameters.ruledBy (p : FunctionParameters ν) (rule : FunctionType)
    (base : Option ν) : FunctionParameters ν :=
  { p with typeName := some rule.name, base := base }

namespace StopFunction

theorem atNumber_of_held {f : StopFunction ν} (held : f.spec.isInterpolatable = false)
    (values : List (ν × Value ν)) (x : ν) :
    f.atNumber values x = values[(selectStop (values.map (·.1)) x).index]?.map (·.2) := by
  unfold atNumber
  cases selected : selectStop (values.map (·.1)) x with
  | only i => rfl
  | between i lower upper =>
    have filled : values.map (·.1) ≠ [] := by
      intro empty
      simp [empty, selectStop] at selected
    have inRange := selectStop_inRange (values.map (·.1)) x filled
    rw [selected, List.length_map] at inRange
    have inside : i + 1 < values.length := inRange
    simp [Selection.index, List.getElem?_eq_getElem inside,
      List.getElem?_eq_getElem (Nat.lt_of_succ_lt inside),
      PropertySpec.blend_of_not_isInterpolatable held]

/-- Neither the rule nor the base of numeric stops matters where outputs do not blend. -/
theorem evaluate_eq_of_held {f g : StopFunction ν} (tables : f.table = g.table)
    (numeric : ∃ values, f.table = .numeric values) (defaults : f.default = g.default)
    (specDefaults : f.specDefault = g.specDefault) (held : f.spec.isInterpolatable = false)
    (alsoHeld : g.spec.isInterpolatable = false) (input : Option (Value ν)) :
    f.evaluate input = g.evaluate input := by
  obtain ⟨values, isNumeric⟩ := numeric
  simp only [evaluate, isNumeric, ← tables, orDefault, defaults, specDefaults,
    atNumber_of_held held, atNumber_of_held alsoHeld]

/-- The stops of a definition make functions of the exponential and of the interval rule alike. -/
theorem make_of_held {s : PropertySpec ν} (held : s.isInterpolatable = false)
    (p : FunctionParameters ν) (base base' : Option ν) (space : ColorSpace) :
    BothMade (fun f g => ∀ input, f.evaluate input = g.evaluate input)
      (make (p.ruledBy .exponential base) s .exponential space)
      (make (p.ruledBy .interval base') s .interval space) := by
  simp only [make, FunctionParameters.ruledBy, StopTable.make]
  cases tabulated : StopTable.make.numericTable s p.stops with
  | error e => exact .refused e
  | ok table =>
    have numeric : ∃ values, table = .numeric values := by
      unfold StopTable.make.numericTable at tabulated
      split at tabulated
      · cases tabulated
      · obtain ⟨values, _, rfl⟩ := exists_of_map_eq_ok tabulated
        exact ⟨values, rfl⟩
    cases s.resolveDefault p.default with
    | error e => exact .refused e
    | ok default => exact .made (evaluate_eq_of_held rfl numeric rfl rfl held held)

end StopFunction

namespace CompiledFunction

variable {s : PropertySpec ν}

theorem Alike.composite {stops stops' : List (ν × CompiledFunction ν)}
    (alike : List.Forall₂ (fun f g => f.1 = g.1 ∧ f.2.Alike g.2) stops stops')
    (fallback : Option (Value ν)) (space : ColorSpace) :
    (composite stops fallback space s).Alike (.composite stops' fallback space s) := by
  have zooms : stops.map (·.1) = stops'.map (·.1) :=
    map_eq_map_iff_forall₂.mpr (alike.imp fun _ _ same => same.1)
  refine ⟨rfl, zooms, fun env => ?_⟩
  have output (i : Nat) : evaluateAt env stops i = evaluateAt env stops' i := by
    clear zooms
    induction alike generalizing i with
    | nil => rfl
    | cons same _ ih =>
      cases i with
      | zero => exact same.2.evaluate env
      | succ i => exact ih i
  simp only [CompiledFunction.evaluate, zooms, output]

omit [Scalar ν] in
theorem compileGroups_bothMade {R : CompiledFunction ν → CompiledFunction ν → Prop}
    {compile compile' : List (Stop ν) → Except FunctionError (CompiledFunction ν)}
    (each : ∀ stops, BothMade R (compile stops) (compile' stops))
    (groups : List (ν × List (Stop ν))) :
    BothMade (List.Forall₂ fun f g => f.1 = g.1 ∧ R f.2 g.2) (compileGroups compile groups)
      (compileGroups compile' groups) := by
  induction groups with
  | nil => exact .made .nil
  | cons group rest ih =>
    rw [compileGroups, compileGroups]
    rcases (each group.2).cases with ⟨e, refused, refused'⟩ | ⟨f, g, made, made', related⟩
    · rw [refused, refused']
      exact .refused e
    · rw [made, made']
      rcases ih.cases with ⟨e, refused, refused'⟩ | ⟨fs, gs, made, made', more⟩
      · rw [refused, refused']
        exact .refused e
      · rw [made, made']
        exact .made (.cons ⟨rfl, related⟩ more)

theorem compileComposite_bothMade {p q : FunctionParameters ν} (stops : p.stops = q.stops)
    (default : p.default = q.default) (space : ColorSpace)
    {compile compile' : List (Stop ν) → Except FunctionError (CompiledFunction ν)}
    (each : ∀ stops, BothMade Alike (compile stops) (compile' stops)) :
    BothMade Alike (compileComposite p s space compile) (compileComposite q s space compile') := by
  simp only [compileComposite, stops, default]
  cases regroup 0 [] q.stops with
  | error e => exact .refused e
  | ok groups =>
    dsimp only
    cases descent? 0 (groups.map (·.1)) with
    | some i => exact .refused (.unsortedStops i)
    | none =>
      dsimp only
      rcases (compileGroups_bothMade each groups).cases with
        ⟨e, refused, refused'⟩ | ⟨fs, gs, made, made', alike⟩
      · simp only [refused, refused']
        exact .refused e
      · simp only [made, made']
        cases s.resolveDefault q.default with
        | error e => exact .refused e
        | ok default => exact .made (.composite alike _ space)

theorem compileSimple_of_held (held : s.isInterpolatable = false) (p : FunctionParameters ν)
    (base base' : Option ν) (space : ColorSpace) :
    BothMade Alike (compileSimple (p.ruledBy .exponential base) s .exponential space)
      (compileSimple (p.ruledBy .interval base') s .interval space) := by
  unfold compileSimple
  rcases (StopFunction.make_of_held held p base base' space).cases with
    ⟨e, refused, refused'⟩ | ⟨f, g, made, made', same⟩
  · rw [refused, refused']
    exact .refused e
  · rw [made, made']
    simp only [FunctionParameters.ruledBy]
    cases p.property with
    | some property => exact .made { kind := rfl, zoomStops := rfl, evaluate := fun env => same _ }
    | none => exact .made { kind := rfl, zoomStops := rfl, evaluate := fun env => same _ }

section RuledBy

variable (p : FunctionParameters ν) (rule : FunctionType) (base : Option ν)

omit [Scalar ν] in
@[simp] theorem ruleOf_ruledBy : ruleOf (p.ruledBy rule base) s = .ok rule := by
  cases rule <;> rfl

omit [Scalar ν] in
@[simp] theorem spaceOf_ruledBy : spaceOf (p.ruledBy rule base) = spaceOf p := rfl

omit [Scalar ν] in
@[simp] theorem isComposite_ruledBy : (p.ruledBy rule base).isComposite = p.isComposite := rfl

omit [Scalar ν] in
/-- The rule of a definition is that of its groups, and its base is not. -/
@[simp] theorem groupParameters_ruledBy (stops : List (Stop ν)) :
    groupParameters (p.ruledBy rule base) stops = (groupParameters p stops).ruledBy rule none := rfl

end RuledBy

theorem compileWithin_of_held (held : s.isInterpolatable = false) (depth : Nat)
    (p : FunctionParameters ν) (base base' : Option ν) :
    BothMade Alike (compileWithin depth (p.ruledBy .exponential base) s)
      (compileWithin depth (p.ruledBy .interval base') s) := by
  induction depth generalizing p base base' with
  | zero =>
    rw [compileWithin, compileWithin]
    simp only [ruleOf_ruledBy, spaceOf_ruledBy, isComposite_ruledBy]
    cases spaceOf p with
    | error e => exact .refused e
    | ok space =>
      rcases Bool.eq_false_or_eq_true p.isComposite with composite | simple
      · simp only [composite, if_true]
        exact .refused (.malformedCompositeKey 0)
      · simp only [simple, Bool.false_eq_true, if_false]
        exact compileSimple_of_held held p base base' space
  | succ depth ih =>
    rw [compileWithin, compileWithin]
    simp only [ruleOf_ruledBy, spaceOf_ruledBy, isComposite_ruledBy, groupParameters_ruledBy]
    cases spaceOf p with
    | error e => exact .refused e
    | ok space =>
      rcases Bool.eq_false_or_eq_true p.isComposite with composite | simple
      · simp only [composite, if_true]
        exact compileComposite_bothMade rfl rfl space fun stops => ih _ none none
      · simp only [simple, Bool.false_eq_true, if_false]
        exact compileSimple_of_held held p base base' space

def blendingTypes : List String :=
  ["number", "color", "padding", "numberArray", "colorArray", "array"]

/-- For a property whose outputs do not blend, a definition under the exponential rule, whatever the
base, and under the interval rule is refused for one cause, or makes functions of one kind, with
stops at the same zooms, that have one output in every context. -/
theorem exponential_agrees_with_interval (notBlending : s.typeName ∉ blendingTypes)
    (p : FunctionParameters ν) (base base' : Option ν) :
    BothMade Alike (compile (p.ruledBy .exponential base) s)
      (compile (p.ruledBy .interval base') s) := by
  have held : s.isInterpolatable = false := by
    simp only [blendingTypes, List.mem_cons, List.not_mem_nil, or_false, not_or] at notBlending
    simp [PropertySpec.isInterpolatable, PropertySpec.hasParser, notBlending]
  exact compileWithin_of_held held (FunctionParameters.keyDepth p.stops) p base base'

def nestedNames : FunctionParameters Float where
  typeName := none
  property := some "p"
  base := none
  colorSpace := none
  default := none
  stops :=
    [⟨.obj [("value", .int 0), ("zoom", .int 1)], .str "a"⟩,
      ⟨.obj [("value", .int 8), ("zoom", .int 1)], .str "b"⟩,
      ⟨.obj [("value", .obj [("value", .int 4), ("zoom", .int 3)]), ("zoom", .int 9)], .str "c"⟩]

/-- Between its zooms and between its numbers, both rules hold the lower output. -/
theorem exponential_agrees_with_interval_of_nestedNames :
    "string" ∉ blendingTypes ∧
      ∃ f g, compile (nestedNames.ruledBy .exponential (some 2)) (.ofType "string") = .ok f ∧
        compile (nestedNames.ruledBy .interval none) (.ofType "string") = .ok g ∧ f.Alike g ∧
        g.evaluate ⟨⟨some 5, none⟩, some ⟨none, none, [("p", .int 7)]⟩⟩ = some (.string "a") := by
  have notBlending : "string" ∉ blendingTypes := by decide
  obtain ⟨g, compiled, held⟩ :
      ∃ g, compile (nestedNames.ruledBy .interval none) (.ofType "string") = .ok g ∧
        g.evaluate ⟨⟨some 5, none⟩, some ⟨none, none, [("p", .int 7)]⟩⟩ = some (.string "a") :=
    ⟨_, rfl, rfl⟩
  rcases (exponential_agrees_with_interval (s := .ofType "string") notBlending nestedNames (some 2)
    none).cases with ⟨e, _, refused⟩ | ⟨f, g', made, made', alike⟩
  · cases compiled.symm.trans refused
  · obtain rfl := Except.ok.inj (compiled.symm.trans made')
    exact ⟨notBlending, f, g, made, made', alike, held⟩

end CompiledFunction

end MapStyle
