import MapStyle.Proofs.StopFunction.Holding

/-!
# What functions read

A function reads what its kind declares: the property that its definition names, the zoom, or both.
Two contexts that agree on that give one output, whatever else they hold.
-/

set_option autoImplicit false

namespace MapStyle

variable {ν : Type} [Scalar ν]

/-- The value of the property that a definition names; none where the definition names no property,
the feature does not have it, or there is no feature. -/
def FunctionParameters.propertyIn? (p : FunctionParameters ν) (env : Env ν) : Option (Json ν) :=
  p.property.bind env.property?

/-- Two contexts agree on what functions of a kind read. -/
structure FunctionParameters.AgreeFor (p : FunctionParameters ν) (kind : FunctionKind)
    (env env' : Env ν) : Prop where
  zoom : kind ≠ .source → env.globals.zoom = env'.globals.zoom
  property : kind ≠ .camera → p.propertyIn? env = p.propertyIn? env'

namespace CompiledFunction

variable {p : FunctionParameters ν} {s : PropertySpec ν} {f : CompiledFunction ν}
  {env env' : Env ν}

theorem evaluateAt_congr {stops : List (ν × CompiledFunction ν)}
    (same : ∀ stop ∈ stops, stop.2.evaluate env = stop.2.evaluate env') (i : Nat) :
    evaluateAt env stops i = evaluateAt env' stops i := by
  rw [evaluateAt_eq, evaluateAt_eq]
  exact Option.bind_congr fun stop found => same stop (List.mem_of_getElem? found)

theorem evaluate_congr_of_compileSimple {type : FunctionType} {space : ColorSpace}
    (made : compileSimple p s type space = .ok f) (agree : p.AgreeFor f.kind env env') :
    f.evaluate env = f.evaluate env' := by
  obtain ⟨g, _, ⟨name, named, rfl⟩ | ⟨_, rfl⟩⟩ := source_or_camera made
  · have same := agree.property fun isCamera => by cases isCamera
    have property : env.property? name = env'.property? name := by
      simpa [FunctionParameters.propertyIn?, named] using same
    rw [evaluate, evaluate, property]
  · have zoom := agree.zoom fun isSource => by cases isSource
    rw [evaluate, evaluate, zoom]

theorem CompositeParts.evaluate_congr (parts : CompositeParts p s f)
    (zoom : env.globals.zoom = env'.globals.zoom)
    (same : ∀ stop ∈ parts.stops, stop.2.evaluate env = stop.2.evaluate env') :
    f.evaluate env = f.evaluate env' := by
  rw [parts.eq_composite, evaluate, evaluate, zoom]
  simp only [evaluateAt_congr same]

theorem evaluate_congr (compiled : compile p s = .ok f) (agree : p.AgreeFor f.kind env env') :
    f.evaluate env = f.evaluate env' := by
  revert agree
  refine compile_induction (motive := fun p f => p.AgreeFor f.kind env env' →
    f.evaluate env = f.evaluate env') ?_ ?_ compiled
  · intro p f type space _ _ _ made agree
    exact evaluate_congr_of_compileSimple made agree
  · intro p f parts _ each agree
    have kind : f.kind = .composite := congrArg CompiledFunction.kind parts.eq_composite
    rw [kind] at agree
    refine parts.evaluate_congr (agree.zoom nofun) fun stop mem => ?_
    obtain ⟨g, _, holds⟩ := each stop mem
    exact holds ⟨fun _ => agree.zoom nofun, fun _ => agree.property nofun⟩

/-- A function of a definition reads what its kind declares, and nothing else. -/
structure ReadsDeclared (p : FunctionParameters ν) (f : CompiledFunction ν) : Prop where
  /-- a function of a property reads that property, whatever the globals -/
  source : f.kind = .source → ∀ env env', p.propertyIn? env = p.propertyIn? env' →
    f.evaluate env = f.evaluate env'
  /-- a function of the zoom reads the zoom, whatever the feature -/
  camera : f.kind = .camera → ∀ env env', env.globals.zoom = env'.globals.zoom →
    f.evaluate env = f.evaluate env'
  /-- a composite function reads the zoom, and the property if its definition names one -/
  composite : f.kind = .composite → ∀ env env', env.globals.zoom = env'.globals.zoom →
    (p.property.isSome = true → p.propertyIn? env = p.propertyIn? env') →
    f.evaluate env = f.evaluate env'
  /-- where the flag for the zoom is not set, globals do not matter -/
  zoomless : f.isZoomDependent = false → ∀ globals globals' feature,
    f.evaluate ⟨globals, feature⟩ = f.evaluate ⟨globals', feature⟩
  /-- where the flag for features is not set, features do not matter -/
  featureless : f.isFeatureDependent = false → ∀ globals feature feature',
    f.evaluate ⟨globals, feature⟩ = f.evaluate ⟨globals, feature'⟩
  /-- neither the density, nor the id and the geometry of a feature, nor a property other than that
  of the definition matters -/
  others : ∀ zoom density density' id id' geometry geometry' properties properties',
    (∀ name ∈ p.property, properties.lookup name = properties'.lookup name) →
    f.evaluate ⟨⟨zoom, density⟩, some ⟨id, geometry, properties⟩⟩ =
      f.evaluate ⟨⟨zoom, density'⟩, some ⟨id', geometry', properties'⟩⟩

/-- Every accepted definition makes a function that reads what its kind declares. -/
theorem evaluate_readsDeclared (compiled : compile p s = .ok f) : ReadsDeclared p f where
  source kind env env' property :=
    evaluate_congr compiled ⟨fun notSource => absurd kind notSource, fun _ => property⟩
  camera kind env env' zoom :=
    evaluate_congr compiled ⟨fun _ => zoom, fun notCamera => absurd kind notCamera⟩
  composite _ env env' zoom property := by
    refine evaluate_congr compiled ⟨fun _ => zoom, fun _ => ?_⟩
    cases named : p.property with
    | none => simp only [FunctionParameters.propertyIn?, named, Option.bind_none]
    | some name => exact property (by rw [named]; rfl)
  zoomless flag globals globals' feature := by
    have kind : f.kind = .source := by simpa [isZoomDependent] using flag
    exact evaluate_congr compiled ⟨fun notSource => absurd kind notSource, fun _ => rfl⟩
  featureless flag globals feature feature' := by
    have kind : f.kind = .camera := by simpa [isFeatureDependent] using flag
    exact evaluate_congr compiled ⟨fun _ => rfl, fun notCamera => absurd kind notCamera⟩
  others zoom density density' id id' geometry geometry' properties properties' same :=
    evaluate_congr compiled ⟨fun _ => rfl, fun _ => Option.bind_congr same⟩

/-- A composite function that nests gives one output at one zoom for two features with one value of
its property. -/
theorem evaluate_readsDeclared_of_nestedNames :
    ∃ f, compile nestedNames (.ofType "string") = .ok f ∧ f.kind = .composite ∧
      f.evaluate ⟨⟨some 5, none⟩, some ⟨none, none, [("p", .int 7)]⟩⟩ =
        f.evaluate ⟨⟨some 5, some 1⟩,
          some ⟨some (.int 3), some .point, [("other", .bool true), ("p", .int 7)]⟩⟩ := by
  obtain ⟨f, compiled, kind⟩ : ∃ f, compile nestedNames (.ofType "string") = .ok f ∧
    f.kind = .composite := ⟨_, rfl, rfl⟩
  exact ⟨f, compiled, kind,
    (evaluate_readsDeclared compiled).composite kind _ _ rfl fun _ => rfl⟩

end CompiledFunction

end MapStyle
