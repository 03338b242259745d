import MapStyle.PropertySpec

/-!
# Function definitions

A function is defined by its stops, each an input and an output, the rule by which stops are chosen,
and the property whose value is the input.  A stop whose input is an object has a zoom and a value.
-/

set_option autoImplicit false

namespace MapStyle

structure Stop (ν : Type) where
  key : Json ν
  output : Json ν
deriving Inhabited

structure FunctionParameters (ν : Type) where
  typeName : Option String
  property : Option String
  base : Option ν
  colorSpace : Option String
  default : Option (Json ν)
  stops : List (Stop ν)

def Stop.ofJson? {ν : Type} (j : Json ν) : Option (Stop ν) :=
  match j with
  | .arr [key, output] => some ⟨key, output⟩
  | _ => none

mutual

/-- How deep values of keys nest: a key with a value member is one deeper than that member. -/
def Json.valueDepth {ν : Type} : Json ν → Nat
  | .obj members => membersValueDepth members
  | .null => 0
  | .bool _ => 0
  | .int _ => 0
  | .float _ => 0
  | .str _ => 0
  | .arr _ => 0
termination_by structural j => j

/-- The depth of the value member among members, one added; zero without one. -/
def membersValueDepth {ν : Type} : List (String × Json ν) → Nat
  | [] => 0
  | (k, j) :: rest => if "value" = k then j.valueDepth + 1 else membersValueDepth rest
termination_by structural ms => ms

end

namespace FunctionParameters

variable {ν : Type} [Scalar ν]

def ofJson? (j : Json ν) : Option (FunctionParameters ν) :=
  match j.fields? ["type", "property", "base", "colorSpace", "default", "stops"] with
  | some [typeName, property, base, colorSpace, default, stops] =>
    match Json.optionalField? Json.asString? typeName,
      Json.optionalField? Json.asString? property, Json.optionalField? Json.asNumber? base,
      Json.optionalField? Json.asString? colorSpace, Json.optionalField? some default,
      Json.defaultedField? [] (fun j => j.asItems?.bind (readAll? Stop.ofJson?)) stops with
    | some typeName, some property, some base, some colorSpace, some default, some stops =>
      some ⟨typeName, property, base, colorSpace, default, stops⟩
    | _, _, _, _, _, _ => none
  | _ => none

/-- The document that describes parameters; what they do not say is left out, except for stops. -/
def toJson (p : FunctionParameters ν) : Json ν :=
  .ofFields [("type", p.typeName.map .str), ("property", p.property.map .str),
    ("base", p.base.map .float), ("colorSpace", p.colorSpace.map .str), ("default", p.default),
    ("stops", some (.arr (p.stops.map fun s => .arr [s.key, s.output])))]

/-- Whether the inputs of stops are objects, as the first one shows. -/
def isComposite (p : FunctionParameters ν) : Bool := p.stops.head?.any (·.key.isObject)

/-- How deep values of the inputs of stops nest. -/
def keyDepth (stops : List (Stop ν)) : Nat :=
  stops.foldr (fun s depth => Nat.max s.key.valueDepth depth) 0

end FunctionParameters

end MapStyle
