import MapStyle.Compile.Fault
import MapStyle.StopFunction.Error

/-!
# Style errors

What can go wrong with a style, and the text that says which part did.
-/

set_option autoImplicit false

namespace MapStyle

/-- The causes for which a style is refused or gives no value. -/
inductive StyleError where
  | parse (ds : List Diagnostic)
  | runtime (message : String)
  | function (e : FunctionError)
  /-- a document does not describe what it should -/
  | serialization (message : String)
  | other (message : String)
deriving DecidableEq, Repr, Inhabited

def StyleError.message : StyleError → String
  | .parse ds => "parse error: " ++ "; ".intercalate (ds.map (·.text))
  | .runtime message => "runtime error: " ++ message
  | .function e => "function error: " ++ e.message
  | .serialization message => "serialization error: " ++ message
  | .other message => message

end MapStyle
