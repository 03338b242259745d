import MapStyle.Json.Writer

/-!
# Function errors

The causes for which the definition of a function is refused, and the text of each.  Stops are
counted from zero.
-/

set_option autoImplicit false

namespace MapStyle

inductive FunctionError where
  | unknownType (name : String)
  | unknownColorSpace (name : String)
  | emptyStops
  | nonNumericStop (index : Nat)
  | unsortedStops (index : Nat)
  | invalidStopOutput (index : Nat) (shown typeName : String)
  | invalidDefault (shown typeName : String)
  | malformedCompositeKey (index : Nat)
deriving DecidableEq, Repr, Inhabited

def FunctionError.message : FunctionError → String
  | .unknownType name => "Unknown function type \"" ++ name ++ "\""
  | .unknownColorSpace name => "Unknown color space: \"" ++ name ++ "\""
  | .emptyStops => "function has no stops"
  | .nonNumericStop i => "stop " ++ toString i ++ " has a non-numeric input"
  | .unsortedStops i =>
    "stop " ++ toString i ++ " is out of order; stop inputs must be ascending"
  | .invalidStopOutput i shown typeName =>
    "stop " ++ toString i ++ " output " ++ shown ++ " is not a valid " ++ typeName
  | .invalidDefault shown typeName => "default " ++ shown ++ " is not a valid " ++ typeName
  | .malformedCompositeKey i =>
    "stop " ++ toString i ++ " must have a numeric \"zoom\" and a \"value\""

end MapStyle
