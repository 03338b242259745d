import MapStyle.Value.Basic

/-!
# Comparisons

The six comparisons and what they make of two values without a collator: numbers compare as numbers,
text by character numbers, and other values only for equality.  A value that is no number differs
from everything.
-/

set_option autoImplicit false

namespace MapStyle

inductive Comparison where
  | eq
  | ne
  | lt
  | le
  | gt
  | ge
deriving DecidableEq, Repr, Inhabited

namespace Comparison

def symbol : Comparison → String
  | .eq => "=="
  | .ne => "!="
  | .lt => "<"
  | .le => "<="
  | .gt => ">"
  | .ge => ">="

def ofSymbol? : String → Option Comparison
  | "==" => some .eq
  | "!=" => some .ne
  | "<" => some .lt
  | "<=" => some .le
  | ">" => some .gt
  | ">=" => some .ge
  | _ => none

/-- Whether the comparison asks for an order and not only for equality. -/
def isOrder : Comparison → Bool
  | .eq | .ne => false
  | .lt | .le | .gt | .ge => true

/-- Whether the comparison holds of two things in a given order. -/
def holds : Comparison → Ordering → Bool
  | .eq, o => o == .eq
  | .ne, o => o != .eq
  | .lt, o => o == .lt
  | .le, o => o != .gt
  | .gt, o => o == .gt
  | .ge, o => o != .lt

def supports (c : Comparison) : Ty → Bool
  | .string | .number | .value => true
  | .boolean | .null => !c.isOrder
  | _ => false

variable {ν : Type} [Scalar ν]

/-- The order of two values, as far as the comparison needs one. -/
def order? (c : Comparison) (a b : Value ν) : Option Ordering :=
  match a, b with
  | .number x, .number y => Scalar.compare? x y
  | .string s, .string t => some (compare s t)
  | a, b => if c.isOrder then none else some (if a == b then .eq else .lt)

/-- Compares two values without a collator; values without an order only differ. -/
def apply (c : Comparison) (a b : Value ν) : Bool :=
  match c.order? a b with
  | some o => c.holds o
  | none => c == .ne

end Comparison

end MapStyle
