import MapStyle.Expr.Comparison
import MapStyle.Json.Writer

/-!
# Evaluation errors

The causes for which an evaluation fails, and the text of each.
-/

set_option autoImplicit false

namespace MapStyle

inductive EvalError where
  | zoomMissing
  | needle (found : Ty)
  | haystack (found : Ty)
  | assertion (expected found : Ty)
  | coercion (expected : Ty) (shown : String)
  | operands (c : Comparison) (lhs rhs : Ty)
  | notCollator (found : Ty)
  | notAllowed (allowed : List String) (shown : String)
deriving DecidableEq, Repr, Inhabited

def EvalError.message : EvalError → String
  | .zoomMissing => "The zoom level is not available in this context."
  | .needle found =>
    "Expected first argument to be of type boolean, string, number or null, but found " ++
      found.name ++ " instead."
  | .haystack found =>
    "Expected second argument to be of type array or string, but found " ++ found.name ++
      " instead."
  | .assertion expected found =>
    "Expected value to be of type " ++ expected.name ++ ", but found " ++ found.name ++ " instead."
  | .coercion expected shown =>
    "Could not parse " ++ expected.kind ++ " from value '" ++ shown ++ "'"
  | .operands c lhs rhs =>
    "Expected arguments for \"" ++ c.symbol ++
      "\" to be (string, string) or (number, number), but found (" ++ lhs.kind ++ ", " ++
      rhs.kind ++ ") instead."
  | .notCollator found => "Expected collator, but found " ++ found.name ++ " instead."
  | .notAllowed allowed shown =>
    "Expected value to be one of " ++ ", ".intercalate (allowed.map quote) ++ ", but found " ++
      shown ++ " instead."

end MapStyle
