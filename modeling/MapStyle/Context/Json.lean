import MapStyle.Context
import MapStyle.Json.Record

/-!
# Contexts as documents

How the values of the map and a feature are described.
-/

set_option autoImplicit false

namespace MapStyle

variable {ν : Type}

def Globals.ofJson? [Scalar ν] (j : Json ν) : Option (Globals ν) :=
  match j.fields? ["zoom", "heatmapDensity"] with
  | some [zoom, density] =>
    match Json.optionalField? Json.asNumber? zoom, Json.optionalField? Json.asNumber? density with
    | some zoom, some density => some ⟨zoom, density⟩
    | _, _ => none
  | _ => none

/-- The geometry that a document names: its name, or an object with that name and nothing for it. -/
def GeometryType.ofJson? (j : Json ν) : Option GeometryType :=
  match j with
  | .str name => GeometryType.ofName? name
  | .obj [(name, .null)] => GeometryType.ofName? name
  | _ => none

namespace Feature

def fieldNames : List String := ["id", "type", "properties"]

def ofJson? (j : Json ν) : Option (Feature ν) :=
  match j.fields? fieldNames with
  | some [id, geometry, properties] =>
    match Json.optionalField? some id, Json.optionalField? GeometryType.ofJson? geometry,
      Json.defaultedField? [] Json.asMembers? properties with
    | some id, some geometry, some properties => some ⟨id, geometry, properties⟩
    | _, _, _ => none
  | _ => none

end Feature

end MapStyle
