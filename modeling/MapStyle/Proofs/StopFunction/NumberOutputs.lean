import MapStyle.Collation.Engine
import MapStyle.Proofs.Interpolation.Ramps
import MapStyle.Proofs.StopFunction.Intervals

/-!
# Functions and interpolations of numbers

Exponential functions and interpolations whose outputs are numbers yield ramps of their inputs: they
stay between the numbers around an input, pass through those of the stops, and never fall where
those do not.  Properties that do not blend hold the lower output, along a curve that is zero up to
the next label.
-/

set_option autoImplicit false

namespace MapStyle

open scoped Scalar

variable {ν : Type} [Scalar ν] [Scalar.InReals ν]

def numbered (stops : List (ν × ν)) : List (ν × Value ν) := stops.map fun s => (s.1, .number s.2)

section Outputs

omit [Scalar.InReals ν]

variable {stops : List (ν × ν)} {i : Nat}

omit [Scalar ν] in
theorem labels_numbered (stops : List (ν × ν)) : (numbered stops).map (·.1) = stops.map (·.1) := by
  simp [numbered]

theorem output_numbered (inside : i < stops.length) :
    (numbered stops)[i]?.map (·.2) = some (.number (outputAt stops i)) := by
  have found := List.getElem?_eq_getElem inside
  rw [numbered, List.getElem?_map, found, outputAt_eq found]
  rfl

theorem Curve.between_numbered (nonempty : stops ≠ []) (curve : Curve ν) (space : ColorSpace)
    (x : ν) : curve.between space (numbered stops) x =
      some (.number (rampAt (exponentialFactor curve.base) stops x)) := by
  have inRange := selectStop_inRange (stops.map (·.1)) x (by simpa using nonempty)
  rw [List.length_map] at inRange
  unfold Curve.between rampAt
  rw [labels_numbered]
  generalize selectStop (stops.map (·.1)) x = selected at inRange ⊢
  cases selected with
  | only i => exact output_numbered inRange
  | between i lower upper =>
    dsimp only
    rw [output_numbered inRange, output_numbered (Nat.lt_of_succ_lt inRange)]
    rfl

end Outputs

namespace StopFunction

/-- The place of an input between two stops of an exponential function: properties that do not blend
hold the lower output. -/
def place (f : StopFunction ν) : ν → ν → ν → ν :=
  if f.spec.isInterpolatable then exponentialFactor f.base else fun _ _ _ => 0

theorem atNumber_numbered {stops : List (ν × ν)} (nonempty : stops ≠ []) {f : StopFunction ν}
    (exponential : f.type = .exponential) (x : ν) :
    f.atNumber (numbered stops) x = some (.number (rampAt f.place stops x)) := by
  cases blends : f.spec.isInterpolatable with
  | true =>
    rw [atNumber_eq_between exponential blends, Curve.between_numbered nonempty, place, blends]
    rfl
  | false =>
    have inRange := selectStop_inRange (stops.map (·.1)) x (by simpa using nonempty)
    rw [List.length_map] at inRange
    unfold atNumber rampAt
    rw [labels_numbered]
    generalize selectStop (stops.map (·.1)) x = selected at inRange ⊢
    cases selected with
    | only i => exact output_numbered inRange
    | between i lower upper =>
      dsimp only
      rw [if_pos exponential, output_numbered inRange,
        output_numbered (Nat.lt_of_succ_lt inRange), place, blends]
      simp [PropertySpec.blend, blends, Selection.height, lerp_zero]

/-- The numbers of stops, where their inputs and their outputs are numbers. -/
def Numbers (s : PropertySpec ν) (given : List (Stop ν)) (stops : List (ν × ν)) : Prop :=
  List.Forall₂ (fun stop entry => StopTable.Labels s stop (entry.1, .number entry.2)) given stops

omit [Scalar.InReals ν] in
theorem numbered_eq_of_labels {s : PropertySpec ν} {given : List (Stop ν)}
    {table : List (ν × Value ν)} (labels : List.Forall₂ (StopTable.Labels s) given table)
    {stops : List (ν × ν)} (numbers : Numbers s given stops) : table = numbered stops := by
  unfold Numbers at numbers
  induction labels generalizing stops with
  | nil =>
    cases numbers
    rfl
  | cons label _ ih =>
    cases numbers with
    | @cons _ entry _ rest number later =>
      have input := Option.some.inj (label.1.symm.trans number.1)
      have output := Option.some.inj (label.2.symm.trans number.2)
      exact congrArg₂ List.cons (Prod.ext input output) (ih later)

variable {p : FunctionParameters ν} {s : PropertySpec ν} {space : ColorSpace}
  {stops : List (ν × ν)}

theorem exists_ramp_of_make (powers : Scalar.PowersOrdered ν) {f : StopFunction ν}
    (made : make p s .exponential space = .ok f) (positive : ∀ b ∈ p.base, 0 < b)
    (numbers : Numbers s p.stops stops) :
    ∃ ramp, Ramp stops ramp ∧ ∀ x, f.evaluate (some (.number x)) = some (.number (ramp x)) := by
  obtain ⟨table, default, tableMade, _, rfl⟩ := eq_of_make made
  cases StopTable.made_of_make tableMade with
  | numeric _ nonempty listed =>
    obtain ⟨labels, chain⟩ := StopTable.numericStops_eq_ok_iff.mp listed
    obtain rfl := numbered_eq_of_labels labels numbers
    have sorted := pairwise_le_of_isChain chain fun x _ => Scalar.InReals.le_refl x
    rw [Option.toList_none, List.nil_append, labels_numbered] at sorted
    have filled : stops ≠ [] := by
      intro empty
      subst empty
      exact nonempty (List.forall₂_nil_right_iff.mp numbers)
    have base : 0 < p.base.getD 1 := by
      cases given : p.base with
      | none => exact zero_lt_one
      | some b => exact positive b given
    refine ⟨_, ramp_rampAt ?_ sorted filled, fun x => atNumber_numbered filled rfl x⟩
    unfold place
    split
    · exact places_exponentialFactor powers base
    · exact places_zero

end StopFunction

namespace CompiledFunction

variable {p : FunctionParameters ν} {s : PropertySpec ν} {f : CompiledFunction ν}
  {stops : List (ν × ν)}

theorem exists_ramp_of_compile (powers : Scalar.PowersOrdered ν) (compiled : compile p s = .ok f)
    (exponential : ruleOf p s = .ok .exponential) (positive : ∀ b ∈ p.base, 0 < b)
    (numbers : StopFunction.Numbers s p.stops stops) :
    ∃ ramp, Ramp stops ramp ∧ ∀ env x, env.number? p.property = some x →
      f.evaluate env = some (.number (ramp x)) := by
  have plain : ∀ stop ∈ p.stops, stop.zoomAndValue? = none := by
    intro stop mem
    obtain ⟨entry, _, label⟩ := exists_of_forall₂ (List.Forall₂.flip numbers) mem
    by_contra known
    obtain ⟨_, known⟩ := Option.ne_none_iff_exists'.mp known
    have isObject := Stop.key_isObject known
    have number := label.1
    cases key : stop.key with
    | obj members => rw [key] at number; cases number
    | _ => rw [key] at isObject; cases isObject
  have simple := isComposite_eq_false_of_compile compiled plain
  obtain ⟨type, space, ruled, _, made⟩ := compileSimple_of_compile compiled simple
  obtain rfl := Except.ok.inj (ruled.symm.trans exponential)
  obtain ⟨g, inner, _⟩ := source_or_camera made
  obtain ⟨ramp, isRamp, along⟩ := StopFunction.exists_ramp_of_make powers inner positive numbers
  refine ⟨ramp, isRamp, fun env x number => ?_⟩
  obtain ⟨g', inner', evaluated⟩ := evaluate_eq_of_compileSimple made env
  obtain rfl := Except.ok.inj (inner.symm.trans inner')
  rw [evaluated, input?_of_number? number, along]

end CompiledFunction

theorem Expr.exists_ramp_of_interpolate {ν : Type} [Platform ν] [Scalar.InReals ν]
    (powers : Scalar.PowersOrdered ν) {curve : Curve ν} (positive : 0 < curve.base)
    {stops : List (ν × ν)} (nonempty : stops ≠ [])
    (sorted : (stops.map (·.1)).Pairwise (· ≤ ·)) (space : ColorSpace) (t u : Ty) :
    ∃ ramp, Ramp stops ramp ∧ ∀ (input : Expr ν) (env : Env ν) (x : ν),
      input.eval env = .ok (.number x) →
        (interpolate t curve space input
          (stops.map fun s => (s.1, .literal (.number s.2) u))).eval env =
            .ok (.number (ramp x)) := by
  have places := places_exponentialFactor powers positive
  refine ⟨_, ramp_rampAt places sorted nonempty, fun input env x isInput => ?_⟩
  have each : (stops.map fun s => (s.1, Expr.literal (.number s.2) u)).map
      (fun s => (s.1, s.2.eval env)) = (numbered stops).map fun v => (v.1, .ok v.2) := by
    simp [numbered, Function.comp_def, eval]
  exact eval_interpolate isInput each (Curve.between_numbered nonempty curve space x) t

/-- In exact arithmetic the functions and the interpolations whose outputs are numbers yield ramps
of their inputs, and the factor rises between the labels. -/
theorem ramps_of_exponential {ν : Type} [Platform ν] [Scalar.InReals ν]
    (powers : Scalar.PowersOrdered ν) :
    (∀ (p : FunctionParameters ν) (s : PropertySpec ν) (space : ColorSpace) (f : StopFunction ν)
        (stops : List (ν × ν)), StopFunction.make p s .exponential space = .ok f →
      (∀ b ∈ p.base, 0 < b) → StopFunction.Numbers s p.stops stops →
        ∃ ramp, Ramp stops ramp ∧
          ∀ x, f.evaluate (some (.number x)) = some (.number (ramp x))) ∧
    (∀ (p : FunctionParameters ν) (s : PropertySpec ν) (f : CompiledFunction ν)
        (stops : List (ν × ν)), CompiledFunction.compile p s = .ok f →
      CompiledFunction.ruleOf p s = .ok .exponential → (∀ b ∈ p.base, 0 < b) →
      StopFunction.Numbers s p.stops stops →
        ∃ ramp, Ramp stops ramp ∧ ∀ env x, env.number? p.property = some x →
          f.evaluate env = some (.number (ramp x))) ∧
    (∀ (curve : Curve ν) (stops : List (ν × ν)) (space : ColorSpace) (t u : Ty),
      0 < curve.base → stops ≠ [] → (stops.map (·.1)).Pairwise (· ≤ ·) →
        ∃ ramp, Ramp stops ramp ∧ ∀ (input : Expr ν) (env : Env ν) (x : ν),
          input.eval env = .ok (.number x) →
            (Expr.interpolate t curve space input
              (stops.map fun s => (s.1, .literal (.number s.2) u))).eval env =
                .ok (.number (ramp x))) ∧
    ∀ base lower upper : ν, 0 < base → lower < upper → RisesBetween base lower upper := by
  refine ⟨?_, ?_, ?_, ?_⟩
  · intro p s space f stops made positive numbers
    exact StopFunction.exists_ramp_of_make powers made positive numbers
  · intro p s f stops compiled exponential positive numbers
    exact CompiledFunction.exists_ramp_of_compile powers compiled exponential positive numbers
  · intro curve stops space t u positive nonempty sorted
    exact Expr.exists_ramp_of_interpolate powers positive nonempty sorted space t u
  · intro base lower upper positive lt
    exact risesBetween powers positive lt

noncomputable instance : Platform ℝ where
  engine := Engine.forLocale

noncomputable def heightsByZoom : List (ℝ × ℝ) :=
  [(Scalar.ofInt 0, Scalar.ofInt 10), (Scalar.ofInt 2, Scalar.ofInt 20)]

theorem real_ofInt_lt {m n : Int} (lt : m < n) : (Scalar.ofInt m : ℝ) < Scalar.ofInt n := by
  rw [Scalar.real_ofInt, Scalar.real_ofInt]
  exact Int.cast_lt.mpr lt

/-- A function and an interpolation of the zoom with a base of two pass through their heights and
never fall. -/
theorem ramps_of_exponential_of_heights :
    (∃ (f : CompiledFunction ℝ) (ramp : ℝ → ℝ),
      CompiledFunction.compile CompiledFunction.growingHeights (.ofType "number") = .ok f ∧
      (∀ zoom, f.evaluate (Env.blank.atZoom zoom) = some (.number (ramp zoom))) ∧
      ramp (Scalar.ofInt 2) = Scalar.ofInt 20 ∧ ∀ x y, x ≤ y → ramp x ≤ ramp y) ∧
    (∃ ramp : ℝ → ℝ,
      (∀ zoom, (Expr.interpolate .number (.exponential (Scalar.ofInt 2)) .rgb .zoom
        (heightsByZoom.map fun s => (s.1, .literal (.number s.2) .number))).eval
          (Env.blank.atZoom zoom) = .ok (.number (ramp zoom))) ∧
      ramp (Scalar.ofInt 2) = Scalar.ofInt 20 ∧ ∀ x y, x ≤ y → ramp x ≤ ramp y) ∧
    RisesBetween (Scalar.ofInt 2 : ℝ) (Scalar.ofInt 0) (Scalar.ofInt 2) := by
  obtain ⟨-, functions, interpolations, factors⟩ :=
    ramps_of_exponential Scalar.InReals.powersOrdered_real
  have positive : (Scalar.ofInt 0 : ℝ) < Scalar.ofInt 2 := real_ofInt_lt (by norm_num)
  have ascending : (heightsByZoom.map (·.1)).Pairwise (· < ·) := by
    simpa [heightsByZoom] using positive
  have ordered : (heightsByZoom.map (·.2)).Pairwise (· ≤ ·) := by
    have heights : (Scalar.ofInt 10 : ℝ) < Scalar.ofInt 20 := real_ofInt_lt (by norm_num)
    simpa [heightsByZoom] using heights.le
  have atTwo : ((Scalar.ofInt 2, Scalar.ofInt 20) : ℝ × ℝ) ∈ heightsByZoom := by
    simp [heightsByZoom]
  refine ⟨?_, ?_, factors _ _ _ positive positive⟩
  · obtain ⟨f, compiled, _⟩ := CompiledFunction.growingHeights_compile
    have numbers : StopFunction.Numbers (.ofType "number") CompiledFunction.growingHeights.stops
        heightsByZoom := .cons ⟨rfl, rfl⟩ (.cons ⟨rfl, rfl⟩ .nil)
    obtain ⟨ramp, isRamp, along⟩ := functions _ _ f heightsByZoom compiled rfl
      (by rintro b ⟨⟩; exact positive) numbers
    exact ⟨f, ramp, compiled, fun zoom => along _ zoom rfl, isRamp.through ascending _ atTwo,
      isRamp.monotone ordered⟩
  · obtain ⟨ramp, isRamp, along⟩ := interpolations (.exponential (Scalar.ofInt 2)) heightsByZoom
      .rgb .number .number positive (by simp [heightsByZoom]) (ascending.imp Scalar.le_of_lt)
    refine ⟨ramp, fun zoom => along .zoom _ zoom ?_, isRamp.through ascending _ atTwo,
      isRamp.monotone ordered⟩
    rfl

end MapStyle
