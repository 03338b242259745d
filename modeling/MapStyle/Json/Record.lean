import MapStyle.Json.Basic

/-!
# Records

A record is written as an object with a member for each field, or as an array with the fields in
their order, of which the last ones may be left out.  Members that are no fields are passed over.
-/

set_option autoImplicit false

namespace MapStyle

namespace Json

variable {ν α : Type}

def fields? (names : List String) : Json ν → Option (List (Option (Json ν)))
  | .obj members => some (names.map fun name => members.lookup name)
  | .arr items =>
    if items.length ≤ names.length then
      some (items.map some ++ List.replicate (names.length - items.length) none)
    else none
  | _ => none

/-- A field that may be left out or null. -/
def optionalField? (read? : Json ν → Option α) : Option (Json ν) → Option (Option α)
  | none => some none
  | some .null => some none
  | some j => (read? j).map some

/-- A field that may be left out, but not null. -/
def defaultedField? (default : α) (read? : Json ν → Option α) : Option (Json ν) → Option α
  | none => some default
  | some j => read? j

/-- A field that must be there. -/
def requiredField? (read? : Json ν → Option α) : Option (Json ν) → Option α
  | none => none
  | some j => read? j

def asMembers? : Json ν → Option (List (String × Json ν))
  | .obj members => some members
  | _ => none

def ofFields (members : List (String × Option (Json ν))) : Json ν :=
  ofMembers (members.filterMap fun m => m.2.map (m.1, ·))

end Json

end MapStyle
