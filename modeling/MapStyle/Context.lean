import MapStyle.Json.Basic

/-!
# Contexts

What a style is evaluated against: values that hold for the whole map, and the feature that is being
drawn, if there is one.
-/

set_option autoImplicit false

namespace MapStyle

/-- The values that hold for the whole map. -/
structure Globals (ν : Type) where
  zoom : Option ν
  heatmapDensity : Option ν
deriving Inhabited

def Globals.blank {ν : Type} : Globals ν := ⟨none, none⟩

inductive GeometryType where
  | point
  | lineString
  | polygon
deriving DecidableEq, Repr, Inhabited

namespace GeometryType

def name : GeometryType → String
  | .point => "Point"
  | .lineString => "LineString"
  | .polygon => "Polygon"

def ofName? : String → Option GeometryType
  | "Point" => some .point
  | "LineString" => some .lineString
  | "Polygon" => some .polygon
  | _ => none

end GeometryType

structure Feature (ν : Type) where
  id : Option (Json ν)
  geometry : Option GeometryType
  properties : List (String × Json ν)
deriving Inhabited

namespace Feature

variable {ν : Type}

def property? (f : Feature ν) (name : String) : Option (Json ν) := f.properties.lookup name

end Feature

/-- The context of one evaluation. -/
structure Env (ν : Type) where
  globals : Globals ν
  feature : Option (Feature ν)
deriving Inhabited

namespace Env

variable {ν : Type}

def blank : Env ν := ⟨.blank, none⟩

def property? (env : Env ν) (name : String) : Option (Json ν) :=
  env.feature.bind fun f => f.property? name

end Env

end MapStyle
