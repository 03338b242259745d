import MapStyle.Interpolation.Blend
import MapStyle.Interpolation.Curve
import MapStyle.Interpolation.Stops
import MapStyle.StopFunction.Error
import MapStyle.StopFunction.Parameters

/-!
# Functions of one input

A function of one input chooses an output by its rule: the output of the last stop at or below the
input, a blend of the two stops around it, the output of the stop that equals it, or the input
itself.  Where the rule has no answer the default stands in.
-/

set_option autoImplicit false

namespace MapStyle

open scoped Scalar

/-- The rule by which a function chooses its output. -/
inductive FunctionType where
  /-- blends the outputs of the stops around the input -/
  | exponential
  /-- takes the output of the last stop at or below the input -/
  | interval
  /-- takes the output of the stop that equals the input -/
  | categorical
  /-- takes the input itself -/
  | identity
deriving DecidableEq, Repr, Inhabited

namespace FunctionType

def name : FunctionType → String
  | .exponential => "exponential"
  | .interval => "interval"
  | .categorical => "categorical"
  | .identity => "identity"

def ofName : String → Except FunctionError FunctionType
  | "exponential" => .ok .exponential
  | "interval" => .ok .interval
  | "categorical" => .ok .categorical
  | "identity" => .ok .identity
  | other => .error (.unknownType other)

end FunctionType

inductive StopTable (ν : Type) where
  /-- no stops: the input is looked up nowhere -/
  | direct
  | numeric (stops : List (ν × Value ν))
  /-- outputs by the text of their inputs, for inputs of one shape; of equal texts the last -/
  | categorical (shape : Shape) (outputs : List (String × Value ν))

structure StopFunction (ν : Type) where
  type : FunctionType
  base : ν
  space : ColorSpace
  table : StopTable ν
  default : Option (Value ν)
  specDefault : Option (Value ν)
  spec : PropertySpec ν

variable {ν : Type} [Scalar ν]

/-- The text by which an input is looked up; both zeros have one text. -/
def Value.lookupText : Value ν → String
  | .null => "null"
  | .number x => if x == 0 then "0" else Scalar.toText x
  | v => v.text

namespace PropertySpec

def parseOutput (s : PropertySpec ν) (index : Nat) (j : Json ν) :
    Except FunctionError (Value ν) :=
  match s.parseValue? j with
  | some v => .ok v
  | none => .error (.invalidStopOutput index j.render s.typeName)

/-- The default that a function itself gives, or, for properties whose values are written otherwise
than as plain data, that of the property. -/
def resolveDefault (s : PropertySpec ν) (given : Option (Json ν)) :
    Except FunctionError (Option (Value ν)) :=
  if s.hasParser then
    match given.or s.default with
    | none => .ok none
    | some j =>
      match s.parseValue? j with
      | some v => .ok (some v)
      | none => .error (.invalidDefault j.render s.typeName)
  else .ok (given.map .ofJson)

/-- Blends two outputs where the property blends, and holds the lower one elsewhere. -/
def blend (s : PropertySpec ν) (space : ColorSpace) (lower upper : Value ν) (t : ν) : Value ν :=
  if s.isInterpolatable then lower.blend space upper t else lower

/-- The input itself as a value of the property, if it can be one. -/
def identity? (s : PropertySpec ν) (input : Value ν) : Option (Value ν) :=
  if input.isNull && s.typeName != "enum" then none
  else
    match s.typeName with
    | "color" => (input.asString?.bind Color.ofText?).map .color
    | "formatted" => some (.formatted (.ofText input.text))
    | "resolvedImage" => some (.image (.ofName input.text))
    | "padding" => s.parseValue? input.toJson
    | "numberArray" => s.parseValue? input.toJson
    | "colorArray" => s.parseValue? input.toJson
    | "enum" => if s.hasEnumValue input.lookupText then some input else none
    | other => if input.shape.name = other then some input else none

end PropertySpec

namespace StopTable

/-- Stops with numeric inputs that do not descend; `last` is the input before them. -/
def numericStops (s : PropertySpec ν) : Nat → Option ν → List (Stop ν) →
    Except FunctionError (List (ν × Value ν))
  | _, _, [] => .ok []
  | i, last, stop :: rest =>
    match stop.key.asNumber? with
    | none => .error (.nonNumericStop i)
    | some x =>
      if last.any fun l => x < l then .error (.unsortedStops i)
      else
        match s.parseOutput i stop.output with
        | .error e => .error e
        | .ok v =>
          match numericStops s (i + 1) (some x) rest with
          | .error e => .error e
          | .ok more => .ok ((x, v) :: more)

def categoricalStops (s : PropertySpec ν) : Nat → List (Stop ν) →
    Except FunctionError (List (String × Value ν))
  | _, [] => .ok []
  | i, stop :: rest =>
    match s.parseOutput i stop.output with
    | .error e => .error e
    | .ok v =>
      match categoricalStops s (i + 1) rest with
      | .error e => .error e
      | .ok more => .ok (((Value.ofJson stop.key).lookupText, v) :: more)

def make (s : PropertySpec ν) (type : FunctionType) (stops : List (Stop ν)) :
    Except FunctionError (StopTable ν) :=
  match type with
  | .identity => .ok .direct
  | .categorical =>
    match stops with
    | [] => .error .emptyStops
    | first :: _ =>
      (categoricalStops s 0 stops).map (.categorical (Value.ofJson first.key).shape)
  | .interval => numericTable
  | .exponential => numericTable
where
  numericTable : Except FunctionError (StopTable ν) :=
    match stops with
    | [] => .error .emptyStops
    | _ :: _ => (numericStops s 0 none stops).map .numeric

end StopTable

namespace StopFunction

def make (p : FunctionParameters ν) (s : PropertySpec ν) (type : FunctionType)
    (space : ColorSpace) : Except FunctionError (StopFunction ν) :=
  match StopTable.make s type p.stops with
  | .error e => .error e
  | .ok table =>
    match s.resolveDefault p.default with
    | .error e => .error e
    | .ok default =>
      .ok
        { type := type
          base := p.base.getD 1
          space := space
          table := table
          default := default
          specDefault := s.default.map .ofJson
          spec := s }

/-- A value, or the default of the function, or that of the property. -/
def orDefault (f : StopFunction ν) (v : Option (Value ν)) : Option (Value ν) :=
  (v.or f.default).or f.specDefault

/-- The output for a numeric input. -/
def atNumber (f : StopFunction ν) (stops : List (ν × Value ν)) (x : ν) : Option (Value ν) :=
  let output (i : Nat) := stops[i]?.map (·.2)
  match selectStop (stops.map (·.1)) x with
  | .only i => output i
  | .between i lower upper =>
    if f.type = .exponential then
      match output i, output (i + 1) with
      | some a, some b => some (f.spec.blend f.space a b (exponentialFactor f.base x lower upper))
      | _, _ => none
    else output i

def evaluate (f : StopFunction ν) (input : Option (Value ν)) : Option (Value ν) :=
  match f.table with
  | .direct => f.orDefault (input.bind f.spec.identity?)
  | .categorical shape outputs =>
    f.orDefault <| input.bind fun v =>
      if v.shape = shape then outputs.reverse.lookup v.lookupText else none
  | .numeric stops =>
    match input.bind Value.asNumber? with
    | some x => f.atNumber stops x
    | none => f.orDefault none

end StopFunction

end MapStyle
