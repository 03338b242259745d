import MapStyle.Expr.EvalError
import MapStyle.Text.Shown

/-!
# Faults

The causes for which an expression does not compile, and the text of each.  A diagnostic is a fault
at a place; places are paths of argument positions from the outermost expression, where the operator
name has position zero.
-/

set_option autoImplicit false

namespace MapStyle

inductive Fault where
  | bareObject
  | emptyArray
  | operatorNotText (found : String)
  | unknownOperator (name : String)
  | typeMismatch (expected found : Ty)
  | evaluation (e : EvalError)
  | literalArguments (found : Nat)
  | letArguments (found : Nat)
  | nameNotText (found : String)
  | nameCharacters
  | variableForm
  | unknownVariable (name : String)
  | indexOfArguments (found : Nat)
  | needleType (found : Ty)
  | getArguments (found : Nat)
  | noArguments (found : Nat)
  | unknownAccessor (name : String)
  | oneArgument
  | collatorOptions
  | unknownComparison
  | comparisonArguments
  | comparisonType (c : Comparison) (found : Ty)
  | incomparable (lhs rhs : Ty)
  | collatorOnOthers
  | assertionArguments
  | arrayItemType
  | arrayLength
  | curveMissing
  | curveBase
  | unknownCurve (shown : String)
  | interpolateArguments (found : Nat)
  | interpolateParity
  | labelNotNumber
  | labelOrder
  | notInterpolatable (t : Ty)
  /-- a remark of an operator that is not one of the usual ones -/
  | remark (text : String)
deriving DecidableEq, Repr, Inhabited

def argumentsMessage (expected : String) (found : Nat) : String :=
  "Expected " ++ expected ++ ", but found " ++ toString found ++ " instead."

def Fault.message : Fault → String
  | .bareObject => "Bare objects invalid. Use [\"literal\", \x7b...\x7d] instead."
  | .emptyArray =>
    "Expected an array with at least one element. If you wanted a literal array, use " ++
      "[\"literal\", []]."
  | .operatorNotText found =>
    "Expression name must be a string, but found " ++ found ++
      " instead. If you wanted a literal array, use [\"literal\", [...]]."
  | .unknownOperator name =>
    "Unknown expression \"" ++ name ++
      "\". If you wanted a literal array, use [\"literal\", [...]]."
  | .typeMismatch expected found =>
    "Expected " ++ expected.name ++ " but found " ++ found.name ++ " instead."
  | .evaluation e => e.message
  | .literalArguments found =>
    "'literal' expression requires exactly one argument, but found " ++ toString found ++
      " instead."
  | .letArguments found => argumentsMessage "at least 3 arguments" found
  | .nameNotText found => "Expected string, but found " ++ found ++ " instead."
  | .nameCharacters => "Variable names must contain only alphanumeric characters or '_'."
  | .variableForm => "'var' expression requires exactly one string literal argument."
  | .unknownVariable name =>
    "Unknown variable \"" ++ name ++ "\". Make sure \"" ++ name ++
      "\" has been bound in an enclosing \"let\" expression before using it."
  | .indexOfArguments found => argumentsMessage "2 or 3 arguments" found
  | .needleType found =>
    "Expected first argument to be of type boolean, string, number or null, but found " ++
      found.name ++ " instead"
  | .getArguments found => argumentsMessage "1 or 2 arguments" found
  | .noArguments found => argumentsMessage "no arguments" found
  | .unknownAccessor name => "Unknown accessor Some(" ++ shownText name ++ ")."
  | .oneArgument => "Expected one argument."
  | .collatorOptions => "Collator options argument must be an object."
  | .unknownComparison => "Unknown comparison operator."
  | .comparisonArguments => "Expected two or three arguments."
  | .comparisonType c found =>
    "\"" ++ c.symbol ++ "\" comparisons are not supported for type '" ++ found.name ++ "'."
  | .incomparable lhs rhs => "Cannot compare types '" ++ lhs.name ++ "' and '" ++ rhs.name ++ "'."
  | .collatorOnOthers => "Cannot use collator to compare non-string types."
  | .assertionArguments => "Expected at least one argument."
  | .arrayItemType =>
    "The item type argument of \"array\" must be one of string, number, boolean"
  | .arrayLength => "The length argument to \"array\" must be a positive integer literal"
  | .curveMissing => "Expected an interpolation type expression."
  | .curveBase => "Exponential interpolation requires a numeric base."
  | .unknownCurve shown => "Unknown interpolation type " ++ shown
  | .interpolateArguments found =>
    "Expected at least 4 arguments, but found only " ++ toString found ++ "."
  | .interpolateParity => "Expected an even number of arguments."
  | .labelNotNumber =>
    "Input/output pairs for \"interpolate\" expressions must be defined using literal numeric " ++
      "values (not computed expressions) for the input values."
  | .labelOrder =>
    "Input/output pairs for \"interpolate\" expressions must be arranged with input values in " ++
      "strictly ascending order."
  | .notInterpolatable t => "Type " ++ t.name ++ " is not interpolatable."
  | .remark text => text

structure Diagnostic where
  path : List Nat
  fault : Fault
deriving DecidableEq, Repr, Inhabited

namespace Diagnostic

def trail (path : List Nat) : String :=
  String.join (path.map fun i => "[" ++ toString i ++ "]")

def message (d : Diagnostic) : String := d.fault.message

/-- The text of a diagnostic; the outermost place goes without saying. -/
def text (d : Diagnostic) : String :=
  if d.path.isEmpty then d.message else trail d.path ++ ": " ++ d.message

end Diagnostic

end MapStyle
