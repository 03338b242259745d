import MapStyle.Proofs.StopFunction.Labels
import MapStyle.Proofs.StopFunction.OwnZoom

/-!
# Between the zooms of a function

Whoever draws a function between two of its zooms may blend the outputs at the two zooms by the
factor that the function gives for the zoom in between, and gets what the function yields there.
-/

set_option autoImplicit false

namespace MapStyle

open scoped Scalar

variable {ν : Type} [Scalar ν]

def Env.atZoom (env : Env ν) (zoom : ν) : Env ν :=
  { env with globals := { env.globals with zoom := some zoom } }

/-! ## Outputs by label -/

/-- A value for every input, from an output for each label: an input that selects one stop has its
output, one between two stops a mixture, and a mixture at the lower of the two is its output. -/
structure Mixes {α : Type} (labels : List ν) (outputs : List α) (mix : α → α → ν → ν → ν → α)
    (value : ν → Option α) : Prop where
  length : outputs.length = labels.length
  only : ∀ x i, selectStop labels x = .only i → value x = outputs[i]?
  between : ∀ x i lower upper a b, selectStop labels x = .between i lower upper →
    outputs[i]? = some a → outputs[i + 1]? = some b → value x = some (mix a b x lower upper)
  lowest : ∀ a ∈ outputs, ∀ b x lower upper, (x == lower) = true → mix a b x lower upper = a

namespace Mixes

variable [Scalar.Ordered ν] {α : Type} {labels : List ν} {outputs : List α}
  {mix : α → α → ν → ν → ν → α} {value : ν → Option α} {i : Nat}

theorem value_at_label (mixes : Mixes labels outputs mix value)
    (ascending : labels.Pairwise (· < ·)) {l : ν} (found : labels[i]? = some l)
    (number : l ≤ l) {a : α} (output : outputs[i]? = some a) : value l = some a := by
  have same : (l == l) = true := (Scalar.Ordered.beq_iff l l).mpr ⟨number, number⟩
  have selected := selectStop_at_label ascending found same
  by_cases first : i = 0
  · subst first
    rw [mixes.only l 0 (by simpa using selected), output]
  · rw [if_neg first] at selected
    cases next : labels[i + 1]? with
    | none =>
      rw [next] at selected
      rw [mixes.only l i selected, output]
    | some upper =>
      rw [next] at selected
      have inside : i + 1 < outputs.length :=
        mixes.length ▸ (List.getElem?_eq_some_iff.mp next).1
      rw [mixes.between l i l upper a _ selected output (List.getElem?_eq_getElem inside),
        mixes.lowest a (List.mem_of_getElem? output) _ l l upper same]

theorem value_between (mixes : Mixes labels outputs mix value)
    (ascending : labels.Pairwise (· < ·)) {l u x : ν} (lower : labels[i]? = some l)
    (upper : labels[i + 1]? = some u) (above : l ≤ x) (below : x < u) :
    ∃ a b, a ∈ outputs ∧ value l = some a ∧ value u = some b ∧
      value x = some (mix a b x l u) := by
  have nextInside : i + 1 < outputs.length :=
    mixes.length ▸ (List.getElem?_eq_some_iff.mp upper).1
  have isA : outputs[i]? = some outputs[i] := List.getElem?_eq_getElem (by omega)
  have isB : outputs[i + 1]? = some outputs[i + 1] := List.getElem?_eq_getElem nextInside
  have lowerNumber : l ≤ l := (Scalar.Ordered.le_self_of_le l x above).1
  have upperNumber : u ≤ u := (Scalar.Ordered.le_self_of_le x u (Scalar.le_of_lt below)).2
  refine ⟨_, _, List.getElem_mem _, mixes.value_at_label ascending lower lowerNumber isA,
    mixes.value_at_label ascending upper upperNumber isB, ?_⟩
  rcases selectStop_of_between ascending lower upper above below with two | ⟨⟨rfl, le⟩, one⟩
  · exact mixes.between x i l u _ _ two isA isB
  · have same : (x == l) = true := (Scalar.Ordered.beq_iff x l).mpr ⟨le, above⟩
    rw [mixes.only x 0 one, isA, mixes.lowest _ (List.getElem_mem _) _ x l u same]

end Mixes

/-! ## Factors and blends -/

/-- Where zero is the exponent of one, an input at the lower of two stops has the place zero. -/
theorem exponentialFactor_self [Scalar.Exact ν] {base x lower : ν}
    (law : (base == 1) = true ∨ Scalar.pow base 0 = 1) (same : (x == lower) = true) (upper : ν) :
    exponentialFactor base x lower upper = 0 := by
  obtain rfl := (Scalar.Exact.beq_iff_eq x lower).mp same
  simp only [exponentialFactor, Scalar.Exact.sub_self]
  split
  · rfl
  · split
    · exact Scalar.Exact.zero_div _
    · rename_i notOne
      rw [law.resolve_left notOne, Scalar.Exact.sub_self, Scalar.Exact.zero_div]

theorem Value.blend_space {a : Value ν} (noColor : a.ty ≠ .color) (noColors : a.ty ≠ .colorArray)
    (space space' : ColorSpace) (b : Value ν) (t : ν) : a.blend space b t = a.blend space' b t := by
  cases a with
  | color c => exact absurd rfl noColor
  | colorArray cs => exact absurd rfl noColors
  | _ => cases b <;> rfl

/-- Properties that hold the lower output between stops, and numbers in exact arithmetic in which
the exponent zero gives one. -/
def PropertySpec.BlendsExactly (s : PropertySpec ν) : Prop :=
  s.isInterpolatable = false ∨ s.typeName = "number" ∧ Scalar.Exact ν ∧
    ∀ b : ν, 0 < b → Scalar.pow b 0 = 1

/-! ## Outputs that are there -/

namespace StopTable

variable {s : PropertySpec ν}

theorem labels_of_make {type : FunctionType} {stops : List (Stop ν)}
    {values : List (ν × Value ν)} (made : make s type stops = .ok (.numeric values)) :
    values.map (·.1) = (stops.filterMap fun stop => stop.key.asNumber?) ∧ values ≠ [] := by
  cases made_of_make made with
  | numeric _ nonempty listed =>
    obtain ⟨entries, _⟩ := numericStops_eq_ok_iff.mp listed
    refine ⟨labels_eq entries, ?_⟩
    intro empty
    subst empty
    exact nonempty (List.forall₂_nil_right_iff.mp entries)

end StopTable

theorem PropertySpec.exists_default {s : PropertySpec ν} {given : Option (Json ν)}
    {default : Option (Value ν)} (resolved : s.resolveDefault given = .ok default)
    (some_given : given.isSome = true ∨ s.default.isSome = true) :
    ∃ v, default.or (s.default.map .ofJson) = some v := by
  rcases default_cases resolved with ⟨none, _⟩ | ⟨_, v, _, _, stands⟩
  · obtain ⟨noneGiven, noDefault⟩ := Option.or_eq_none_iff.mp none
    simp [noneGiven, noDefault] at some_given
  · exact ⟨v, stands⟩

namespace StopFunction

variable {s : PropertySpec ν}

theorem exists_atNumber (f : StopFunction ν) {values : List (ν × Value ν)} (filled : values ≠ [])
    (x : ν) : ∃ v, f.atNumber values x = some v := by
  have inRange := selectStop_inRange (values.map (·.1)) x (by simpa using filled)
  unfold atNumber
  cases selected : selectStop (values.map (·.1)) x with
  | only i =>
    have inside : i < values.length := by simpa [selected, Selection.InRange] using inRange
    exact ⟨values[i].2, by simp [List.getElem?_eq_getElem inside]⟩
  | between i lower upper =>
    have inside : i + 1 < values.length := by simpa [selected, Selection.InRange] using inRange
    simp only [List.getElem?_eq_getElem inside, List.getElem?_eq_getElem (Nat.lt_of_succ_lt inside),
      Option.map_some]
    split <;> exact ⟨_, rfl⟩

theorem exists_evaluate {p : FunctionParameters ν} {type : FunctionType} {space : ColorSpace}
    {f : StopFunction ν} (made : make p s type space = .ok f)
    (given : p.default.isSome = true ∨ s.default.isSome = true) (input : Option (Value ν)) :
    ∃ v, f.evaluate input = some v := by
  obtain ⟨table, default, tableMade, resolved, rfl⟩ := eq_of_make made
  have standsIn (found : Option (Value ν)) :
      ∃ v, (found.or default).or (s.default.map .ofJson) = some v := by
    obtain ⟨v, stands⟩ := PropertySpec.exists_default resolved given
    cases found with
    | some w => exact ⟨w, rfl⟩
    | none => exact ⟨v, stands⟩
  unfold evaluate
  cases table with
  | direct => exact standsIn _
  | categorical shape outputs => exact standsIn _
  | numeric values =>
    simp only
    split
    · exact exists_atNumber _ (StopTable.labels_of_make tableMade).2 _
    · exact standsIn none

end StopFunction

/-! ## Blends between outputs -/

namespace PropertySpec

variable {s : PropertySpec ν} {a : Value ν}

theorem BlendsExactly.blend_zero (exact : s.BlendsExactly)
    (noColors : s.typeName = "number" → a.ty ≠ .color ∧ a.ty ≠ .colorArray) (space : ColorSpace)
    (b : Value ν) {t : ν}
    (zero : Scalar.Exact ν → (∀ b : ν, 0 < b → Scalar.pow b 0 = 1) → t = 0) :
    s.blend space a b t = a := by
  rcases exact with holds | ⟨number, exactly, powers⟩
  · simp [blend, holds]
  · obtain ⟨noColor, noColors⟩ := noColors number
    rw [zero exactly powers, blend]
    split
    · exact Value.blend_zero space noColor noColors b
    · rfl

theorem BlendsExactly.blend_space (exact : s.BlendsExactly)
    (noColors : s.typeName = "number" → a.ty ≠ .color ∧ a.ty ≠ .colorArray)
    (space space' : ColorSpace) (b : Value ν) (t : ν) :
    s.blend space a b t = s.blend space' a b t := by
  rcases exact with holds | ⟨number, _⟩
  · simp [blend, holds]
  · obtain ⟨noColor, noColors⟩ := noColors number
    rw [blend, blend, Value.blend_space noColor noColors space space']

end PropertySpec

namespace CompiledFunction

variable {p : FunctionParameters ν} {s : PropertySpec ν} {f : CompiledFunction ν}

/-- Functions of the zoom alone, blended or stepped between zooms that ascend strictly, and
functions of the zoom and a property, where each zoom has a function of the property alone and a
default stands in. -/
inductive FollowsZoom (p : FunctionParameters ν) (s : PropertySpec ν) : Prop
  | camera (simple : p.isComposite = false) (noProperty : p.property = none)
      (rule : ruleOf p s = .ok .exponential ∨ ruleOf p s = .ok .interval)
      (ascending : (p.stops.filterMap fun stop => stop.key.asNumber?).Pairwise (· < ·))
  | composite (composite : p.isComposite = true) (property : p.property.isSome = true)
      (plain : ∀ stop ∈ p.stops, ∀ z v, stop.zoomAndValue? = some (z, v) →
        (⟨v, stop.output⟩ : Stop ν).zoomAndValue? = none)
      (default : p.default.isSome = true ∨ s.default.isSome = true)
      (numbers : ∀ y, p.HasZoom y → (y == y) = true)

theorem factor_self [Scalar.Exact ν] {x lower : ν} (same : (x == lower) = true)
    (law : ∀ base, f.curve? = some (.exponential base) →
      (base == 1) = true ∨ Scalar.pow base 0 = 1) (upper : ν) : f.factor x lower upper = 0 := by
  unfold factor
  cases curve : f.curve? with
  | none => rfl
  | some c =>
    cases c with
    | linear => exact linear_factor_self same upper
    | exponential base => exact exponentialFactor_self (law base curve) same upper

theorem camera_mixes (exact : s.BlendsExactly) (positive : ∀ b ∈ p.base, 0 < b)
    {type : FunctionType} {space' : ColorSpace} (made : compileSimple p s type space' = .ok f)
    (noProperty : p.property = none) (rule : type = .exponential ∨ type = .interval) (env : Env ν)
    (space : ColorSpace) :
    f.zoomStops = (p.stops.filterMap fun stop => stop.key.asNumber?) ∧
      ∃ outputs, Mixes f.zoomStops outputs
        (fun a b x lower upper => s.blend space a b (f.factor x lower upper))
        (fun z => f.evaluate (env.atZoom z)) := by
  obtain ⟨g, inner, ⟨name, named, _⟩ | ⟨_, rfl⟩⟩ := source_or_camera made
  · cases noProperty.symm.trans named
  · obtain ⟨table, default, tableMade, _, rfl⟩ := StopFunction.eq_of_make inner
    obtain ⟨values, rfl⟩ := StopTable.exists_numeric_of_make tableMade rule
    obtain ⟨labels, _⟩ := StopTable.labels_of_make tableMade
    have noColors : ∀ a ∈ values.map (·.2), s.typeName = "number" →
        a.ty ≠ .color ∧ a.ty ≠ .colorArray := by
      intro a mem number
      obtain ⟨o, oMem, rfl⟩ := List.mem_map.mp mem
      exact StopTable.outputs_of_make (PropertySpec.yields_of_number number) tableMade o oMem
    refine ⟨rfl, values.map (·.2), ?_⟩
    rw [zoomStops, ← labels]
    refine ⟨by simp, ?_, ?_, ?_⟩
    · intro x i selected
      show StopFunction.atNumber _ values x = _
      simp only [StopFunction.atNumber, selected, List.getElem?_map]
    · intro x i lower upper a b selected isA isB
      rw [List.getElem?_map] at isA isB
      show StopFunction.atNumber _ values x = _
      simp only [StopFunction.atNumber, selected, isA, isB]
      have ofStop : a ∈ values.map (·.2) := List.mem_of_getElem? (List.getElem?_map ▸ isA)
      rcases rule with rfl | rfl
      · rw [if_pos rfl, exact.blend_space (noColors a ofStop) _ space]
        rfl
      · -- a stepped function has no curve: its factor is zero, and the lower output is held
        have held := exact.blend_zero (noColors a ofStop) space b (t := 0) fun _ _ => rfl
        exact congrArg some held.symm
    · intro a mem b x lower upper same
      refine exact.blend_zero (noColors a mem) space b fun exactly powers => ?_
      refine factor_self same (fun base curve => ?_) upper
      obtain rfl : p.base.getD 1 = base := by
        rcases rule with rfl | rfl
        · exact Curve.exponential.inj (Option.some.inj curve)
        · cases curve
      cases given : p.base with
      | none => exact Or.inl ((Scalar.Exact.beq_iff_eq 1 1).mpr rfl)
      | some b => exact Or.inr (powers b (positive b given))

theorem isComposite_eq_false_of_compile (compiled : compile p s = .ok f)
    (plain : ∀ stop ∈ p.stops, stop.zoomAndValue? = none) : p.isComposite = false := by
  cases shape : p.isComposite with
  | false => rfl
  | true =>
    obtain ⟨parts⟩ := compositeParts_of_compile compiled shape
    have regrouped := parts.regrouped
    cases stops : p.stops with
    | nil => simp [FunctionParameters.isComposite, stops] at shape
    | cons first rest =>
      rw [stops, regroup, plain first (by simp [stops])] at regrouped
      cases regrouped

theorem exists_source_of_compileSimple {type : FunctionType} {space : ColorSpace}
    (made : compileSimple p s type space = .ok f) (property : p.property.isSome = true)
    (default : p.default.isSome = true ∨ s.default.isSome = true) :
    ∃ name g, f = .source name g ∧ ∀ input, ∃ v, g.evaluate input = some v := by
  obtain ⟨g, inner, ⟨name, _, rfl⟩ | ⟨unnamed, _⟩⟩ := source_or_camera made
  · exact ⟨name, g, rfl, StopFunction.exists_evaluate inner default⟩
  · simp [unnamed] at property

theorem mixes_of_zoomless (exact : s.BlendsExactly) {env : Env ν}
    {stops : List (ν × CompiledFunction ν)}
    (zoomless : ∀ stop ∈ stops, ∃ v, stop.2.evaluate env = some v ∧
      (∀ z, stop.2.evaluate (env.atZoom z) = some v) ∧
      (s.typeName = "number" → v.ty ≠ .color ∧ v.ty ≠ .colorArray))
    (fallback : Option (Value ν)) (space' space : ColorSpace) :
    ∃ outputs, Mixes (composite stops fallback space' s).zoomStops outputs
      (fun a b x lower upper =>
        s.blend space a b ((composite stops fallback space' s).factor x lower upper))
      (fun z => (composite stops fallback space' s).evaluate (env.atZoom z)) := by
  have output (i : Nat) (x : ν) : evaluateAt (env.atZoom x) stops i =
      (stops.map fun stop => (stop.2.evaluate env).getD .null)[i]? := by
    rw [evaluateAt_eq, List.getElem?_map]
    cases found : stops[i]? with
    | none => rfl
    | some stop =>
      obtain ⟨v, evaluated, atZooms, _⟩ := zoomless stop (List.mem_of_getElem? found)
      simp [evaluated, atZooms]
  have noColors : ∀ a ∈ stops.map fun stop => (stop.2.evaluate env).getD .null,
      s.typeName = "number" → a.ty ≠ .color ∧ a.ty ≠ .colorArray := by
    intro a mem number
    obtain ⟨stop, sMem, rfl⟩ := List.mem_map.mp mem
    obtain ⟨v, evaluated, _, uncolored⟩ := zoomless stop sMem
    rw [evaluated]
    exact uncolored number
  have zoomed (x : ν) : (env.atZoom x).globals.zoom = some x := rfl
  refine ⟨stops.map fun stop => (stop.2.evaluate env).getD .null, by simp [zoomStops], ?_, ?_, ?_⟩
  · intro x i selected
    rw [zoomStops] at selected
    simp only [evaluate, zoomed, selected, output]
  · intro x i lower upper a b selected isA isB
    have ofStop := List.mem_of_getElem? isA
    rw [zoomStops] at selected
    simp only [evaluate, zoomed, selected, output, isA, isB]
    rw [exact.blend_space (noColors a ofStop) space' space]
    rfl
  · intro a mem b x lower upper same
    refine exact.blend_zero (noColors a mem) space b fun exactly _ => ?_
    exact factor_self same (fun base curve => by cases curve) upper

theorem composite_mixes (exact : s.BlendsExactly) (parts : CompositeParts p s f)
    (property : p.property.isSome = true)
    (plain : ∀ stop ∈ p.stops, ∀ z v, stop.zoomAndValue? = some (z, v) →
      (⟨v, stop.output⟩ : Stop ν).zoomAndValue? = none)
    (default : p.default.isSome = true ∨ s.default.isSome = true) (env : Env ν)
    (space : ColorSpace) :
    ∃ outputs, Mixes f.zoomStops outputs
      (fun a b x lower upper => s.blend space a b (f.factor x lower upper))
      (fun z => f.evaluate (env.atZoom z)) := by
  have zoomless : ∀ stop ∈ parts.stops, ∃ v, stop.2.evaluate env = some v ∧
      (∀ z, stop.2.evaluate (env.atZoom z) = some v) ∧
      (s.typeName = "number" → v.ty ≠ .color ∧ v.ty ≠ .colorArray) := by
    intro stop mem
    obtain ⟨g, gMem, compiled⟩ := parts.exists_group mem
    have simple := isComposite_eq_false_of_compile compiled fun stop sMem => by
      rcases mem_regroup parts.regrouped gMem sMem with ⟨_, none, _⟩ | ⟨t, tMem, z, known⟩
      · cases none
      · exact plain t tMem z stop.key known
    obtain ⟨type, space', _, _, made⟩ := compileSimple_of_compile compiled simple
    obtain ⟨name, h, isSource, total⟩ := exists_source_of_compileSimple made property default
    obtain ⟨v, evaluated⟩ := total ((env.property? name).map .ofJson)
    have evaluated : stop.2.evaluate env = some v := by
      rw [isSource]
      exact evaluated
    refine ⟨v, evaluated, fun z => ?_, fun number => ?_⟩
    · rw [isSource] at evaluated ⊢
      exact evaluated
    · exact evaluate_yields (PropertySpec.yields_of_number number) compiled evaluated
  rw [parts.eq_composite]
  exact mixes_of_zoomless exact zoomless parts.fallback parts.space space

/-- Blending what a function yields at two consecutive zooms of it, by the factor that it gives for
a zoom in between, makes what it yields there. -/
theorem evaluate_between_zoomStops [Scalar.Ordered ν] (compiled : compile p s = .ok f)
    (exact : s.BlendsExactly) (positive : ∀ b ∈ p.base, 0 < b) (follows : FollowsZoom p s)
    {i : Nat} {z₀ z₁ z : ν} (lower : f.zoomStops[i]? = some z₀)
    (upper : f.zoomStops[i + 1]? = some z₁) (above : z₀ ≤ z) (below : z < z₁) (env : Env ν)
    (space : ColorSpace) :
    ∃ a b, f.evaluate (env.atZoom z₀) = some a ∧ f.evaluate (env.atZoom z₁) = some b ∧
      f.evaluate (env.atZoom z) = some (s.blend space a b (f.factor z z₀ z₁)) := by
  have mixed : f.zoomStops.Pairwise (· < ·) ∧ ∃ outputs, Mixes f.zoomStops outputs
      (fun a b x lower upper => s.blend space a b (f.factor x lower upper))
      (fun z => f.evaluate (env.atZoom z)) := by
    cases follows with
    | camera simple noProperty rule ascending =>
      obtain ⟨type, space', ruled, _, made⟩ := compileSimple_of_compile compiled simple
      have rule : type = .exponential ∨ type = .interval := by
        rw [ruled] at rule
        exact rule.imp Except.ok.inj Except.ok.inj
      obtain ⟨labels, mixes⟩ := camera_mixes exact positive made noProperty rule env space
      exact ⟨labels ▸ ascending, mixes⟩
    | composite composite property plain default numbers =>
      obtain ⟨parts⟩ := compositeParts_of_compile compiled composite
      have ascending := parts.ascending numbers
      have zooms : f.zoomStops = parts.stops.map (·.1) := congrArg zoomStops parts.eq_composite
      exact ⟨zooms ▸ ascending, composite_mixes exact parts property plain default env space⟩
  obtain ⟨ascending, outputs, mixes⟩ := mixed
  obtain ⟨a, b, _, atLower, atUpper, between⟩ :=
    mixes.value_between ascending lower upper above below
  exact ⟨a, b, atLower, atUpper, between⟩

noncomputable def growingHeights : FunctionParameters ℝ where
  typeName := some "exponential"
  property := none
  base := some (Scalar.ofInt 2)
  colorSpace := none
  default := none
  stops := [⟨.int 0, .int 10⟩, ⟨.int 2, .int 20⟩]

theorem growingHeights_compile : ∃ f, compile growingHeights (.ofType "number") = .ok f ∧
    f.zoomStops = [Scalar.ofInt 0, Scalar.ofInt 2] := by
  have ascend : ((some (Scalar.ofInt 0 : ℝ)).any fun l => decide (Scalar.ofInt 2 < l)) = false := by
    rw [Option.any_some, Scalar.real_ofInt, Scalar.real_ofInt]
    norm_num
  have listed : StopTable.make (.ofType "number") .exponential growingHeights.stops =
      .ok (.numeric [((Scalar.ofInt 0 : ℝ), .number (Scalar.ofInt 10)),
        (Scalar.ofInt 2, .number (Scalar.ofInt 20))]) := by
    show (StopTable.numericStops _ 0 none [_, _]).map _ = _
    simp only [StopTable.numericStops, Json.asNumber?, ascend]
    rfl
  have made : ∃ g, compileSimple growingHeights (.ofType "number") .exponential .rgb =
      .ok (.camera [Scalar.ofInt 0, Scalar.ofInt 2] g) := by
    simp only [compileSimple, StopFunction.make, listed]
    exact ⟨_, rfl⟩
  obtain ⟨g, made⟩ := made
  rw [compile, compileWithin_of_not_isComposite _ rfl]
  exact ⟨_, made, rfl⟩

def namesWithDefault : FunctionParameters Float where
  typeName := some "categorical"
  property := some "p"
  base := none
  colorSpace := none
  default := some (.str "z")
  stops := [⟨.obj [("value", .str "a"), ("zoom", .int 1)], .str "x"⟩,
    ⟨.obj [("value", .str "b"), ("zoom", .int 3)], .str "y"⟩]

theorem evaluate_between_zoomStops_of_heights_and_names :
    (∃ f a b, compile growingHeights (.ofType "number") = .ok f ∧
      f.evaluate (Env.blank.atZoom (Scalar.ofInt 0)) = some a ∧
      f.evaluate (Env.blank.atZoom (Scalar.ofInt 2)) = some b ∧
      f.evaluate (Env.blank.atZoom (Scalar.ofInt 1)) =
        some ((PropertySpec.ofType "number").blend .rgb a b
          (f.factor (Scalar.ofInt 1) (Scalar.ofInt 0) (Scalar.ofInt 2)))) ∧
    ∃ f a b, compile namesWithDefault (.ofType "string") = .ok f ∧
      f.evaluate ((firstCategoryAt 0).atZoom (Scalar.ofInt 1)) = some a ∧
      f.evaluate ((firstCategoryAt 0).atZoom (Scalar.ofInt 3)) = some b ∧
      f.evaluate ((firstCategoryAt 0).atZoom (Scalar.ofInt 2)) =
        some ((PropertySpec.ofType "string").blend .rgb a b
          (f.factor (Scalar.ofInt 2) (Scalar.ofInt 1) (Scalar.ofInt 3))) := by
  constructor
  · obtain ⟨f, compiled, zooms⟩ := growingHeights_compile
    have exact : (PropertySpec.ofType "number" : PropertySpec ℝ).BlendsExactly := by
      refine Or.inr ⟨rfl, inferInstance, fun b _ => ?_⟩
      show Real.rpow b (Scalar.ofInt 0) = Scalar.ofInt 1
      rw [Scalar.real_ofInt, Scalar.real_ofInt]
      norm_num
    have positive : ∀ b ∈ growingHeights.base, (Scalar.ofInt 0 : ℝ) < b := by
      rintro b ⟨⟩
      rw [Scalar.real_ofInt, Scalar.real_ofInt]
      norm_num
    have above : (Scalar.ofInt 0 : ℝ) ≤ Scalar.ofInt 1 := by
      rw [Scalar.real_ofInt, Scalar.real_ofInt]
      norm_num
    have below : (Scalar.ofInt 1 : ℝ) < Scalar.ofInt 2 := by
      rw [Scalar.real_ofInt, Scalar.real_ofInt]
      norm_num
    have ascending : (Scalar.ofInt 0 : ℝ) < Scalar.ofInt 2 := Scalar.lt_of_le_of_lt above below
    have follows : FollowsZoom growingHeights (.ofType "number") :=
      .camera rfl rfl (Or.inl rfl) (by simpa [growingHeights, Json.asNumber?] using ascending)
    have lower : f.zoomStops[0]? = some (Scalar.ofInt 0) := by rw [zooms]; rfl
    have upper : f.zoomStops[1]? = some (Scalar.ofInt 2) := by rw [zooms]; rfl
    obtain ⟨a, b, atLower, atUpper, between⟩ := evaluate_between_zoomStops compiled exact positive
      follows lower upper above below Env.blank .rgb
    exact ⟨f, a, b, compiled, atLower, atUpper, between⟩
  · have compiled : ∃ f, compile namesWithDefault (.ofType "string") = .ok f ∧
        f.zoomStops = [Scalar.ofInt 1, Scalar.ofInt 3] := ⟨_, rfl, rfl⟩
    obtain ⟨f, compiled, zooms⟩ := compiled
    have noBase : ∀ b ∈ namesWithDefault.base, (0 : Float) < b := by simp [namesWithDefault]
    have follows : FollowsZoom namesWithDefault (.ofType "string") := by
      refine .composite rfl rfl ?_ (Or.inl rfl) ?_
      · refine List.forall_mem_cons.mpr ⟨?_, List.forall_mem_singleton.mpr ?_⟩
        · rintro z v ⟨⟩
          rfl
        · rintro z v ⟨⟩
          rfl
      · rintro y ⟨stop, mem, v, known⟩
        simp only [namesWithDefault, List.mem_cons, List.not_mem_nil, or_false] at mem
        rcases mem with rfl | rfl
        all_goals
          obtain ⟨rfl, _⟩ := Prod.mk.inj (Option.some.inj known)
          decide
    have lower : f.zoomStops[0]? = some (Scalar.ofInt 1) := by rw [zooms]; rfl
    have upper : f.zoomStops[1]? = some (Scalar.ofInt 3) := by rw [zooms]; rfl
    have above : (Scalar.ofInt 1 : Float) ≤ Scalar.ofInt 2 := by decide
    have below : (Scalar.ofInt 2 : Float) < Scalar.ofInt 3 := by decide
    obtain ⟨a, b, atLower, atUpper, between⟩ := evaluate_between_zoomStops compiled (Or.inl rfl)
      noBase follows lower upper above below (firstCategoryAt 0) .rgb
    exact ⟨f, a, b, compiled, atLower, atUpper, between⟩

end CompiledFunction

end MapStyle
