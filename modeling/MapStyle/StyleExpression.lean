import MapStyle.Compile.Compiler
import MapStyle.PropertySpec

/-!
# Style expressions

An expression compiled for a property.  Evaluated with a default it always yields a value that the
property can use: the default takes the place of an error, of null, of a value that is no number,
and of a text that an `enum` does not allow.
-/

set_option autoImplicit false

namespace MapStyle

/-- An expression for a property, and the default that stands in for it. -/
structure StyleExpression (ν : Type) where
  expr : Expr ν
  spec : Option (PropertySpec ν)
  default : Value ν

namespace StyleExpression

variable {ν : Type} [Platform ν]

/-- The default of a property as a value; null without one. -/
def defaultOf (spec : Option (PropertySpec ν)) : Value ν :=
  match spec with
  | some s => (s.default.bind s.parseValue?).getD .null
  | none => .null

def compileWith (r : Registry ν) (j : Json ν) (spec : Option (PropertySpec ν)) :
    Except (List Diagnostic) (StyleExpression ν) :=
  match compileExpr r j (spec.map (·.expectedType)) with
  | .ok e => .ok ⟨e, spec, defaultOf spec⟩
  | .error ds => .error ds

def compile (j : Json ν) (spec : Option (PropertySpec ν)) :
    Except (List Diagnostic) (StyleExpression ν) :=
  compileWith .standard j spec

def evaluate (s : StyleExpression ν) (globals : Globals ν) (feature : Option (Feature ν)) :
    Outcome ν :=
  s.expr.eval ⟨globals, feature⟩

/-- A value, if the property allows it. -/
def checkEnum (s : StyleExpression ν) (v : Value ν) : Outcome ν :=
  match s.spec with
  | some spec =>
    if spec.typeName = "enum" then
      if v.asString?.any spec.hasEnumValue then .ok v
      else .error (.notAllowed spec.enumValues v.toJson.render)
    else .ok v
  | none => .ok v

/-- What becomes of the outcome of an evaluation: a value that the property can use, and the error
for which it is the default, if there is one. -/
def settle (s : StyleExpression ν) (outcome : Outcome ν) : Value ν × Option EvalError :=
  match outcome with
  | .error e => (s.default, some e)
  | .ok .null => (s.default, none)
  | .ok v =>
    if v.asNumber?.any Scalar.isNaN then (s.default, none)
    else
      match s.checkEnum v with
      | .ok v => (v, none)
      | .error e => (s.default, some e)

def evaluateWithDefault (s : StyleExpression ν) (globals : Globals ν)
    (feature : Option (Feature ν)) : Value ν :=
  (s.settle (s.evaluate globals feature)).1

def evaluateFeatures (s : StyleExpression ν) (globals : Globals ν)
    (features : List (Feature ν)) : List (Value ν) :=
  features.map fun f => s.evaluateWithDefault globals (some f)

end StyleExpression

end MapStyle
