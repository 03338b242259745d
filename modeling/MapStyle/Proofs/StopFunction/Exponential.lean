import MapStyle.Proofs.Interpolation.Between

/-!
# Exponential functions

Exponential functions whose stops have numbers that ascend strictly for inputs, and numbers or
colors for outputs, are accepted.  They yield what a numeric input does between those outputs; with
zooms, what the zoom does between what the functions of the zooms yield.
-/

set_option autoImplicit false

namespace MapStyle

open scoped Scalar

variable {ν : Type} [Scalar ν]

/-! ## Properties that blend -/

theorem Value.ofJson_of_asNumber? {j : Json ν} {x : ν} (number : j.asNumber? = some x) :
    ofJson j = .number x := by
  cases j with
  | int n => exact congrArg Value.number (Option.some.inj number)
  | float y => exact congrArg Value.number (Option.some.inj number)
  | _ => cases number

namespace PropertySpec

/-- Properties of numbers, for which functions name no space, and of colors, which blend in the
space that is named. -/
inductive BlendsIn (s : PropertySpec ν) : Option String → ColorSpace → Prop
  | number : s.typeName = "number" → BlendsIn s none .rgb
  | color : s.typeName = "color" → BlendsIn s none .rgb
  | colorIn (space : ColorSpace) : s.typeName = "color" → BlendsIn s (some space.name) space

def literal? (s : PropertySpec ν) (j : Json ν) : Option (Value ν) :=
  if s.typeName = "number" then j.asNumber?.map .number else (Color.ofJson? j).map .color

/-- A default, if there is one, is a value of the property. -/
def HasUsableDefault (s : PropertySpec ν) : Prop :=
  ∀ j, s.default = some j → (s.parseValue? j).isSome = true

/-- Stops whose inputs are numbers that ascend strictly and whose outputs are literals. -/
structure Tabulates (s : PropertySpec ν) (stops : List (Stop ν)) (table : List (ν × Value ν)) :
    Prop where
  entries : List.Forall₂ (fun stop entry => stop.key.asNumber? = some entry.1 ∧
    s.literal? stop.output = some entry.2) stops table
  ascending : (table.map (·.1)).Pairwise (· < ·)

/-- Stops of zoom and value whose zooms ascend in the order in which they appear, and whose values
make a table for each zoom. -/
structure TabulatesByZoom (s : PropertySpec ν) (stops : List (Stop ν))
    (tables : ν → List (ν × Value ν)) : Prop where
  numbers : ∀ stop ∈ stops, ∃ z v, stop.zoomAndValue? = some (z, v) ∧ (z == z) = true
  ascending : (zoomsOf stops).Pairwise (· < ·)
  tabulates : ∀ z ∈ zoomsOf stops, s.Tabulates (stopsAtZoom z stops) (tables z)

variable {s : PropertySpec ν} {named : Option String} {space : ColorSpace}

omit [Scalar ν] in
theorem BlendsIn.isInterpolatable (blends : s.BlendsIn named space) :
    s.isInterpolatable = true := by
  cases blends with
  | number type | color type | colorIn _ type =>
    simp [PropertySpec.isInterpolatable, hasParser, type]

theorem BlendsIn.parseValue?_eq (blends : s.BlendsIn named space) {j : Json ν} {v : Value ν}
    (literal : s.literal? j = some v) : s.parseValue? j = some v := by
  cases blends with
  | number type =>
    simp only [literal?, type, if_true] at literal
    obtain ⟨x, number, rfl⟩ := Option.map_eq_some_iff.mp literal
    simp [parseValue?, type, Value.ofJson_of_asNumber? number]
  | color type | colorIn _ type =>
    simpa [literal?, parseValue?, type] using literal

theorem Tabulates.ne_nil {stops : List (Stop ν)} {table : List (ν × Value ν)}
    (tabulates : s.Tabulates stops table) (nonempty : stops ≠ []) : table ≠ [] := by
  rintro rfl
  exact nonempty (List.forall₂_nil_right_iff.mp tabulates.entries)

theorem HasUsableDefault.resolve (usable : s.HasUsableDefault) :
    ∃ default, s.resolveDefault none = .ok default := by
  unfold resolveDefault
  split
  · cases given : s.default with
    | none => exact ⟨none, rfl⟩
    | some j =>
      obtain ⟨v, parsed⟩ := Option.isSome_iff_exists.mp (usable j given)
      exact ⟨some v, by simp [parsed]⟩
  · exact ⟨none, rfl⟩

end PropertySpec

/-! ## Functions of one input -/

variable {s : PropertySpec ν} {space : ColorSpace} {p : FunctionParameters ν}
  {table : List (ν × Value ν)}

/-- The input of a function of one input, where that is a number: the zoom, or a property. -/
def Env.number? (env : Env ν) : Option String → Option ν
  | none => env.globals.zoom
  | some property => (env.property? property).bind Json.asNumber?

theorem Stop.key_isObject {stop : Stop ν} {entry : ν × Json ν}
    (known : stop.zoomAndValue? = some entry) : stop.key.isObject = true := by
  cases key : stop.key with
  | obj members => rfl
  | _ => simp [Stop.zoomAndValue?, key, Json.get?] at known

section Accepted

variable [Scalar.Ordered ν]

theorem StopTable.numericStops_eq {named : Option String} (blends : s.BlendsIn named space)
    {stops : List (Stop ν)} (tabulates : s.Tabulates stops table) (i : Nat) (last : Option ν)
    (above : ∀ l ∈ last, ∀ entry ∈ table, l < entry.1) :
    numericStops s i last stops = .ok table := by
  obtain ⟨entries, ascending⟩ := tabulates
  induction entries generalizing i last with
  | nil => rfl
  | @cons stop entry stops rest this later ih =>
    obtain ⟨number, literal⟩ := this
    obtain ⟨first, ascending⟩ := List.pairwise_cons.mp ascending
    have ordered : (last.any fun l => decide (entry.1 < l)) = false := by
      cases last with
      | none => rfl
      | some l =>
        have lt := above l rfl entry (by simp)
        simpa using fun gt => Scalar.lt_irrefl l (Scalar.lt_trans lt gt)
    have output : s.parseOutput i stop.output = .ok entry.2 := by
      simp [PropertySpec.parseOutput, blends.parseValue?_eq literal]
    have more := ih (i + 1) (some entry.1) (by
      rintro l ⟨⟩ entry' mem
      exact first entry'.1 (List.mem_map_of_mem mem)) ascending
    simp [numericStops, number, ordered, output, more]

theorem StopFunction.exists_make (blends : s.BlendsIn p.colorSpace space)
    (usable : s.HasUsableDefault) (own : p.default = none) (nonempty : p.stops ≠ [])
    (tabulates : s.Tabulates p.stops table) :
    ∃ f, make p s .exponential space = .ok f ∧ ∀ x, f.evaluate (some (.number x)) =
      (Curve.exponential (p.base.getD 1)).between space table x := by
  obtain ⟨default, resolved⟩ := usable.resolve
  have tableMade : StopTable.make s .exponential p.stops = .ok (.numeric table) := by
    have stopsMade := StopTable.numericStops_eq blends tabulates 0 none nofun
    cases stops : p.stops with
    | nil => exact absurd stops nonempty
    | cons first rest =>
      rw [stops] at stopsMade
      simp [StopTable.make, StopTable.make.numericTable, stopsMade, Except.map]
  simp only [make, tableMade, own, resolved]
  exact ⟨_, rfl, fun x => atNumber_eq_between rfl blends.isInterpolatable table x⟩

namespace CompiledFunction

omit [Scalar.Ordered ν] in
theorem isComposite_eq_false_of_tabulates (tabulates : s.Tabulates p.stops table) :
    p.isComposite = false := by
  obtain ⟨entries, _⟩ := tabulates
  cases stops : p.stops with
  | nil => simp [FunctionParameters.isComposite, stops]
  | cons first rest =>
    rw [stops] at entries
    cases entries with
    | cons entry _ =>
      cases key : first.key with
      | obj members => rw [key] at entry; cases entry.1
      | _ => simp [FunctionParameters.isComposite, stops, key, Json.isObject]

omit [Scalar.Ordered ν] [Scalar ν] in
theorem spaceOf_eq (blends : s.BlendsIn p.colorSpace space) : spaceOf p = .ok space := by
  unfold spaceOf
  generalize p.colorSpace = named at blends
  cases blends with
  | number | color => rfl
  | colorIn space => cases space <;> rfl

omit [Scalar.Ordered ν] [Scalar ν] in
theorem ruleOf_eq (exponential : p.typeName = some "exponential") :
    ruleOf p s = .ok .exponential := by
  simp [ruleOf, exponential, FunctionType.ofName]

theorem exists_compileWithin (exponential : p.typeName = some "exponential")
    (blends : s.BlendsIn p.colorSpace space) (usable : s.HasUsableDefault) (own : p.default = none)
    (nonempty : p.stops ≠ []) (tabulates : s.Tabulates p.stops table) :
    ∃ f, (∀ depth, compileWithin depth p s = .ok f) ∧ ∀ env x, env.number? p.property = some x →
      f.evaluate env = (Curve.exponential (p.base.getD 1)).between space table x := by
  obtain ⟨f, made, looked⟩ := StopFunction.exists_make blends usable own nonempty tabulates
  have compiled (depth : Nat) : compileWithin depth p s = compileSimple p s .exponential space := by
    rw [compileWithin_of_not_isComposite s (isComposite_eq_false_of_tabulates tabulates),
      ruleOf_eq exponential, spaceOf_eq blends]
    rfl
  simp only [compiled, compileSimple, made]
  cases property : p.property with
  | none =>
    refine ⟨_, fun _ => rfl, fun env x zoomed => ?_⟩
    have zoomed : env.globals.zoom = some x := zoomed
    rw [evaluate, zoomed]
    exact looked x
  | some q =>
    refine ⟨_, fun _ => rfl, fun env x number => ?_⟩
    obtain ⟨j, found, number⟩ := Option.bind_eq_some_iff.mp number
    rw [evaluate, found, Option.map_some, Value.ofJson_of_asNumber? number]
    exact looked x

/-- Exponential parameters of zoom and property are accepted where the zooms ascend; where there is
a zoom and the property is a number the function yields what the zoom does between what the number
does between the stops of each zoom. -/
theorem exists_compile_of_zooms {q : String} (exponential : p.typeName = some "exponential")
    (property : p.property = some q) (blends : s.BlendsIn p.colorSpace space)
    (usable : s.HasUsableDefault) (own : p.default = none) (nonempty : p.stops ≠ [])
    {tables : ν → List (ν × Value ν)} (byZoom : s.TabulatesByZoom p.stops tables) :
    ∃ f, compile p s = .ok f ∧ ∀ env zoom x values, env.globals.zoom = some zoom →
      env.number? (some q) = some x →
      (zoomsOf p.stops).map (fun z => (z, Curve.linear.between space (tables z) x)) =
        values.map (fun v => (v.1, some v.2)) →
      f.evaluate env = Curve.linear.between space values zoom := by
  have composite : p.isComposite = true := by
    cases stops : p.stops with
    | nil => exact absurd stops nonempty
    | cons first rest =>
      obtain ⟨z, v, known, _⟩ := byZoom.numbers first (by simp [stops])
      simp [FunctionParameters.isComposite, stops, Stop.key_isObject known]
  have each : ∀ g ∈ (zoomsOf p.stops).map fun z => (z, stopsAtZoom z p.stops),
      ∃ f, compileWithin (FunctionParameters.keyDepth p.stops - 1) (groupParameters p g.2) s =
        .ok f ∧ ∀ env x, env.number? (some q) = some x →
          f.evaluate env = Curve.linear.between space (tables g.1) x := by
    intro g mem
    obtain ⟨z, zMem, rfl⟩ := List.mem_map.mp mem
    obtain ⟨f, compiled, looked⟩ :=
      exists_compileWithin (p := groupParameters p (stopsAtZoom z p.stops)) exponential blends
        usable own (stopsAtZoom_ne_nil byZoom.numbers zMem) (byZoom.tabulates z zMem)
    exact ⟨f, compiled _, fun env x number => looked env x (property ▸ number)⟩
  obtain ⟨stops, grouped, made⟩ := exists_compileGroups
    (fun stops =>
      compileWithin (FunctionParameters.keyDepth p.stops - 1) (groupParameters p stops) s)
    (fun z f => ∀ env x, env.number? (some q) = some x →
      f.evaluate env = Curve.linear.between space (tables z) x) each
  obtain ⟨default, resolved⟩ := usable.resolve
  rw [compile, compileWithin_of_isComposite s composite (Nat.le_refl _), ruleOf_eq exponential,
    spaceOf_eq blends]
  simp only [Except.bind, compileComposite, regroup_eq_zoomsOf byZoom.numbers, map_fst_stopsAtZoom,
    descent?_eq_none_of_pairwise_lt byZoom.ascending, grouped, own, resolved]
  refine ⟨_, rfl, fun env zoom x values zoomed number values_eq => ?_⟩
  refine evaluate_composite blends.isInterpolatable ?_ zoomed _ space
  rw [List.forall₂_map_left_iff] at made
  rw [← values_eq, map_eq_map_iff_forall₂]
  refine made.flip.imp fun stop z entry => Prod.ext entry.1 ?_
  exact entry.2 env x number

end CompiledFunction

end Accepted

end MapStyle
