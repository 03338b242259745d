import MapStyle.Proofs.StopFunction.Composite
import MapStyle.Proofs.Typing

/-!
# Values between stops

Interpolating expressions, exponential functions and composite functions choose among the values of
their stops in one way: the value of one stop, or two neighbours blended along a curve.
-/

set_option autoImplicit false

namespace MapStyle

variable {ν : Type} [Scalar ν]

theorem map_eq_map_iff_forall₂ {α β γ : Type} {f : α → γ} {g : β → γ} {as : List α} {bs : List β} :
    as.map f = bs.map g ↔ List.Forall₂ (fun a b => f a = g b) as bs := by
  rw [← List.forall₂_eq_eq_eq, List.forall₂_map_left_iff, List.forall₂_map_right_iff]

/-- What an input yields among stops of these values. -/
def Curve.between (curve : Curve ν) (space : ColorSpace) (values : List (ν × Value ν)) (x : ν) :
    Option (Value ν) :=
  match selectStop (values.map (·.1)) x with
  | .only i => values[i]?.map (·.2)
  | .between i lower upper =>
    match values[i]?.map (·.2), values[i + 1]?.map (·.2) with
    | some a, some b => some (a.blend space b (curve.factor x lower upper))
    | _, _ => none

theorem Curve.exists_between {values : List (ν × Value ν)} (nonempty : values ≠ [])
    (curve : Curve ν) (space : ColorSpace) (x : ν) :
    ∃ v, curve.between space values x = some v := by
  have inRange := selectStop_inRange (values.map (·.1)) x (by simpa using nonempty)
  unfold Curve.between
  cases selected : selectStop (values.map (·.1)) x with
  | only i =>
    have inside : i < values.length := by simpa [selected, Selection.InRange] using inRange
    simp [List.getElem?_eq_getElem inside]
  | between i lower upper =>
    have inside : i + 1 < values.length := by simpa [selected, Selection.InRange] using inRange
    simp [List.getElem?_eq_getElem inside, List.getElem?_eq_getElem (Nat.lt_of_succ_lt inside)]

omit [Scalar ν] in
theorem getElem?_of_map_eq {α β γ : Type} {f : α → γ} {g : β → γ} {stops : List (ν × α)}
    {values : List (ν × β)}
    (each : stops.map (fun s => (s.1, f s.2)) = values.map fun v => (v.1, g v.2)) (i : Nat) :
    stops[i]?.map (fun s => f s.2) = values[i]?.map fun v => g v.2 := by
  have entry := congrArg (fun l => l[i]?.map Prod.snd) each
  simpa [List.getElem?_map, Function.comp_def] using entry

omit [Scalar ν] in
theorem labels_of_map_eq {α β γ : Type} {f : α → γ} {g : β → γ} {stops : List (ν × α)}
    {values : List (ν × β)}
    (each : stops.map (fun s => (s.1, f s.2)) = values.map fun v => (v.1, g v.2)) :
    stops.map (·.1) = values.map (·.1) := by
  have labels := congrArg (List.map Prod.fst) each
  simpa [Function.comp_def] using labels

namespace StopFunction

theorem atNumber_eq_between {f : StopFunction ν} (exponential : f.type = .exponential)
    (blends : f.spec.isInterpolatable = true) (values : List (ν × Value ν)) (x : ν) :
    f.atNumber values x = (Curve.exponential f.base).between f.space values x := by
  simp only [atNumber, Curve.between, exponential, PropertySpec.blend, blends, if_true]
  rfl

end StopFunction

namespace CompiledFunction

variable {env : Env ν} {stops : List (ν × CompiledFunction ν)} {values : List (ν × Value ν)}

/-- A composite function of values that blend yields what the zoom does between the values of the
functions of its zooms. -/
theorem evaluate_composite {s : PropertySpec ν} (blends : s.isInterpolatable = true)
    (each : stops.map (fun stop => (stop.1, stop.2.evaluate env)) =
      values.map fun v => (v.1, some v.2))
    {zoom : ν} (zoomed : env.globals.zoom = some zoom) (fallback : Option (Value ν))
    (space : ColorSpace) :
    (composite stops fallback space s).evaluate env = Curve.linear.between space values zoom := by
  have output (i : Nat) : evaluateAt env stops i = values[i]?.map (·.2) := by
    have entry := getElem?_of_map_eq each i
    rw [evaluateAt_eq]
    cases here : stops[i]? <;> cases there : values[i]? <;> simp_all
  rw [evaluate, zoomed]
  simp only [output, labels_of_map_eq each, Curve.between]
  cases selectStop (values.map (·.1)) zoom with
  | only i => rfl
  | between i lower upper =>
    dsimp only
    generalize values[i]?.map (·.2) = a
    generalize values[i + 1]?.map (·.2) = b
    cases a with
    | none => rfl
    | some a =>
      cases b with
      | none => rfl
      | some b => simp [PropertySpec.blend, blends]

end CompiledFunction

namespace Expr

variable {ν : Type} [Platform ν] {env : Env ν} {stops : List (ν × Expr ν)}
  {values : List (ν × Value ν)}

theorem evalOutput_of_value
    (each : stops.map (fun s => (s.1, s.2.eval env)) = values.map fun v => (v.1, .ok v.2)) {i : Nat}
    {v : Value ν} (value : values[i]?.map (·.2) = some v) : evalOutput env stops i = .ok v := by
  induction stops generalizing values i with
  | nil =>
    obtain rfl : values = [] := by simpa using each.symm
    simp at value
  | cons s rest ih =>
    cases values with
    | nil => simp at each
    | cons first more =>
      obtain ⟨head, tail⟩ := List.cons.inj each
      cases i with
      | zero =>
        obtain rfl : first.2 = v := by simpa using value
        exact congrArg Prod.snd head
      | succ i => exact ih tail (by simpa using value)

theorem eval_interpolate {input : Expr ν} {x : ν} (isInput : input.eval env = .ok (.number x))
    (each : stops.map (fun s => (s.1, s.2.eval env)) = values.map fun v => (v.1, .ok v.2))
    {curve : Curve ν} {space : ColorSpace} {v : Value ν}
    (between : curve.between space values x = some v) (t : Ty) :
    (interpolate t curve space input stops).eval env = .ok v := by
  have labels := labels_of_map_eq each
  have lengths : stops.length = values.length := by simpa using congrArg List.length labels
  rw [eval]
  by_cases single : stops.length ≤ 1
  · rw [if_pos single]
    refine evalOutput_of_value each ?_
    match values, lengths with
    | [], _ => simp [Curve.between, selectStop] at between
    | [first], _ => simpa [Curve.between, selectStop] using between
    | _ :: _ :: _, lengths => simp at lengths; omega
  · have number : (Value.number x).asNumber?.getD Scalar.nan = x := rfl
    simp only [single, if_false, isInput, number, labels]
    unfold Curve.between at between
    cases selected : selectStop (values.map (·.1)) x with
    | only i =>
      rw [selected] at between
      exact evalOutput_of_value each between
    | between i lower upper =>
      rw [selected] at between
      simp only at between
      split at between
      · rename_i a b isA isB
        simpa [evalOutput_of_value each isA, evalOutput_of_value each isB] using between
      · cases between

end Expr

end MapStyle
