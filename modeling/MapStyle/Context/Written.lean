import MapStyle.Context.Json
import MapStyle.Json.Written

/-!
# Features as they are written

A feature is read straight from what is written, without the document in between.  Members that are
no fields may then hold anything that is written at all, a field is given only once, and a geometry
that is named in an object is the only member there.
-/

set_option autoImplicit false

namespace MapStyle

namespace Feature

variable {ν : Type} [Scalar ν]

/-- Whether what is written for a geometry is no object, or one with a single member. -/
def isSingleGeometry : Written → Bool
  | .obj members => members.length = 1
  | _ => true

def hasSingleGeometry (members : List (String × Written)) : Bool :=
  (members.lookup "type").all isSingleGeometry

/-- The members that are fields; none if a key has no text or a field is given twice. -/
def writtenFields? (members : List (List Glyph × Written)) : Option (List (String × Written)) :=
  match members.mapM fun m => (Glyph.text? m.1).map fun key => (key, m.2) with
  | none => none
  | some members =>
    let fields := members.filter fun m => fieldNames.contains m.1
    if (fields.map (·.1)).Nodup then some fields else none

def fieldDocument? (field : String × Written) : Option (String × Json ν) :=
  (field.2.toJsonWithin? (Written.depthLimit - 1)).map fun j => (field.1, j)

def ofWritten? : Written → Option (Feature ν)
  | .obj members =>
    match writtenFields? members with
    | none => none
    | some fields =>
      if hasSingleGeometry fields then
        (fields.mapM fieldDocument?).bind fun fields => ofJson? (Json.ofMembers fields)
      else none
  | .arr items =>
    if hasSingleGeometry (fieldNames.zip items) then (Written.arr items).toJson?.bind ofJson?
    else none
  | _ => none

end Feature

end MapStyle
