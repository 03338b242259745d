import MapStyle.Json.Record
import MapStyle.Value.Json

/-!
# Property specifications

A specification describes one style property: the name of its type, its default, the values allowed
for an `enum`, item type and length of an `array`, and whether expressions may interpolate.
-/

set_option autoImplicit false

namespace MapStyle

structure ExpressionSpec where
  interpolated : Bool
  parameters : List String
deriving DecidableEq, Repr, Inhabited

/-- The description of a style property. -/
structure PropertySpec (ν : Type) where
  typeName : String
  default : Option (Json ν)
  values : Option (Json ν)
  item : Option String
  length : Option Nat
  expression : Option ExpressionSpec
deriving Inhabited

namespace ExpressionSpec

variable {ν : Type}

def ofJson? [Scalar ν] (j : Json ν) : Option ExpressionSpec :=
  match j.fields? ["interpolated", "parameters"] with
  | some [interpolated, parameters] =>
    match Json.defaultedField? false Json.asBool? interpolated,
      Json.defaultedField? [] (fun j => j.asItems?.bind (readAll? Json.asString?)) parameters with
    | some interpolated, some parameters => some ⟨interpolated, parameters⟩
    | _, _ => none
  | _ => none

def toJson (e : ExpressionSpec) : Json ν :=
  .ofMembers [("interpolated", .bool e.interpolated), ("parameters", .arr (e.parameters.map .str))]

end ExpressionSpec

/-- The type of a type name that has no parameters. -/
def Ty.ofName? : String → Option Ty
  | "color" => some .color
  | "string" => some .string
  | "enum" => some .string
  | "number" => some .number
  | "boolean" => some .boolean
  | "formatted" => some .formatted
  | "padding" => some .padding
  | "numberArray" => some .numberArray
  | "colorArray" => some .colorArray
  | "resolvedImage" => some .resolvedImage
  | _ => none

namespace PropertySpec

variable {ν : Type}

def ofType (typeName : String) : PropertySpec ν := ⟨typeName, none, none, none, none, none⟩

def withDefault (s : PropertySpec ν) (j : Json ν) : PropertySpec ν := { s with default := some j }

def interpolatable (s : PropertySpec ν) : PropertySpec ν :=
  { s with expression := some { s.expression.getD ⟨false, []⟩ with interpolated := true } }

def ofJson? [Scalar ν] (j : Json ν) : Option (PropertySpec ν) :=
  match j.fields? ["type", "default", "values", "value", "length", "expression"] with
  | some [typeName, default, values, item, length, expression] =>
    match Json.requiredField? Json.asString? typeName, Json.optionalField? some default,
      Json.optionalField? some values, Json.optionalField? Json.asString? item,
      Json.optionalField? Json.asSize? length,
      Json.optionalField? ExpressionSpec.ofJson? expression with
    | some typeName, some default, some values, some item, some length, some expression =>
      some ⟨typeName, default, values, item, length, expression⟩
    | _, _, _, _, _, _ => none
  | _ => none

/-- The document that describes a specification; what it does not say is left out. -/
def toJson (s : PropertySpec ν) : Json ν :=
  .ofFields [("type", some (.str s.typeName)), ("default", s.default), ("values", s.values),
    ("value", s.item.map .str), ("length", s.length.map fun n => .int n),
    ("expression", s.expression.map ExpressionSpec.toJson)]

/-- Whether functions for the property interpolate when they do not say what they do. -/
def supportsInterpolation (s : PropertySpec ν) : Bool := s.expression.any (·.interpolated)

def expectedType (s : PropertySpec ν) : Ty :=
  if s.typeName = "array" then .array ((s.item.bind Ty.ofName?).getD .value) s.length
  else (Ty.ofName? s.typeName).getD .value

/-- The values allowed for an `enum`: the keys of an object, or the texts of an array. -/
def enumValues (s : PropertySpec ν) : List String :=
  match s.values with
  | some (.obj members) => members.map (·.1)
  | some (.arr items) => items.filterMap Json.asString?
  | _ => []

def hasEnumValue (s : PropertySpec ν) (key : String) : Bool := s.enumValues.contains key

/-- Whether values of the property are written otherwise than as plain data. -/
def hasParser (s : PropertySpec ν) : Bool :=
  s.typeName = "color" || s.typeName = "padding" || s.typeName = "numberArray" ||
    s.typeName = "colorArray"

def parseValue? [Scalar ν] (s : PropertySpec ν) (j : Json ν) : Option (Value ν) :=
  match s.typeName with
  | "color" => (Color.ofJson? j).map .color
  | "padding" => (Padding.ofJson? j).map .padding
  | "numberArray" => (numbers? j).map .numberArray
  | "colorArray" => (colors? j).map .colorArray
  | _ => some (.ofJson j)

def isInterpolatable (s : PropertySpec ν) : Bool :=
  s.typeName = "number" || s.typeName = "array" || s.hasParser

end PropertySpec

end MapStyle
