import MapStyle.Compile.Registry
import MapStyle.Json.Writer

/-!
# Interpolating

The operators `interpolate`, `interpolate-hcl` and `interpolate-lab`.  The labels of stops are
numbers as they are written and ascend strictly; the outputs have one type, which blends.
-/

set_option autoImplicit false

namespace MapStyle

namespace Operator

variable {ν : Type} [Scalar ν]

def spaceOf : String → ColorSpace
  | "interpolate-hcl" => .hcl
  | "interpolate-lab" => .lab
  | _ => .rgb

/-- The curve of a form, or the fault in it and its place. -/
def curve (args : List (Operand ν)) : Except (List Nat × Fault) (Curve ν) :=
  match args.head?.map Operand.json with
  | some (.arr (name :: parameters)) =>
    match name with
    | .str "linear" => .ok .linear
    | .str "exponential" =>
      match parameters.head?.bind Json.asNumber? with
      | some base => .ok (.exponential base)
      | none => .error ([1, 1], .curveBase)
    | .str other => .error ([1, 0], .unknownCurve other)
    | other => .error ([1, 0], .unknownCurve other.render)
  | _ => .error ([1], .curveMissing)

/-- The type that outputs are compiled for: the blending spaces of perception take colors, and
otherwise the expected type counts, unless it is `value`. -/
def outputType (space : ColorSpace) (expected : Option Ty) : Option Ty :=
  match space with
  | .hcl => some .color
  | .lab => some .color
  | .rgb => if expected = some .value then none else expected

/-- Compiles labels and outputs in turn; `last` is the label before them and `t` the type of their
outputs, if it is known.  Yields the stops and the type of the outputs. -/
def stops (site : Site ν) : Nat → Option ν → Option Ty → List (Operand ν) →
    Compiling (List (ν × Expr ν) × Option Ty)
  | position, last, t, label :: output :: rest =>
    match label.json.asNumber? with
    | none => site.failAt [position] .labelNotNumber
    | some x =>
      if last.any fun l => x ≤ l then site.failAt [position] .labelOrder
      else do
        let e ← output.compileAt site (position + 1) t
        let (more, t) ← stops site (position + 2) (some x) (some (t.getD e.ty)) rest
        pure ((x, e) :: more, t)
  | _, _, t, _ => pure ([], t)

/-- `["interpolate", curve, input, label, output, …]`. -/
def interpolate : ParseFn ν := fun form site =>
  match curve form.args with
  | .error (place, fault) => site.failAt place fault
  | .ok curve =>
    if form.args.length < 4 then site.fail (.interpolateArguments form.args.length)
    else if form.args.length % 2 = 1 then site.fail .interpolateParity
    else
      match form.args with
      | _ :: input :: pairs => do
        let input ← input.compileAt site 2 (some .number)
        let space := spaceOf form.name
        let (stops, t) ← stops site 3 none (outputType space site.expected) pairs
        let t := t.getD .value
        if t.isInterpolatable then pure (.interpolate t curve space input stops)
        else site.fail (.notInterpolatable t)
      | _ => site.fail (.interpolateArguments form.args.length)

end Operator

end MapStyle
