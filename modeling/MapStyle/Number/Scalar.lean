import MapStyle.Number.Numeral
import MapStyle.Number.Word

/-!
# Scalars

Everything in this library is written over a number type with the operations of `Scalar`.  The
comparisons are those of floating-point numbers: a value that is no number is neither below, above
nor equal to anything, itself included.  Programs run with 64-bit floating-point numbers; a number
type with exact arithmetic is another instance.
-/

set_option autoImplicit false

namespace MapStyle

/-- The numbers of the style language: arithmetic, comparison, and the passage to and from written
numerals. -/
class Scalar (ν : Type) extends Add ν, Sub ν, Mul ν, Div ν, Neg ν, LE ν, LT ν, BEq ν where
  decideLe : ∀ x y : ν, Decidable (x ≤ y)
  decideLt : ∀ x y : ν, Decidable (x < y)
  /-- the value that a numeral names, rounded to nearest -/
  ofNumeral : Numeral → ν
  toNumeral : Tie → ν → Numeral
  /-- the remainder of a division truncated toward zero -/
  rem : ν → ν → ν
  trunc : ν → ν
  /-- the nearest whole value, halves away from zero -/
  round : ν → ν
  /-- the integer part of a finite value -/
  toInt : ν → Int
  pow : ν → ν → ν
  sqrt : ν → ν
  cbrt : ν → ν
  atan2 : ν → ν → ν
  sin : ν → ν
  cos : ν → ν

namespace Scalar

variable {ν : Type} [Scalar ν]

instance (x y : ν) : Decidable (x ≤ y) := decideLe x y

instance (x y : ν) : Decidable (x < y) := decideLt x y

def ofInt (n : Int) : ν := ofNumeral (.ofInt n)

/-- The value `digits * 10 ^ exponent`. -/
def ofDecimal (digits : Nat) (exponent : Int) : ν := ofNumeral (.finite false ⟨digits, exponent⟩)

scoped instance (priority := low) literal (n : Nat) : OfNat ν n := ⟨ofInt n⟩

scoped instance (priority := low) decimalLiteral : OfScientific ν :=
  ⟨fun digits negative e => ofDecimal digits (if negative then -(e : Int) else e)⟩

def nan : ν := ofNumeral .nan

/-- Only a value that is no number differs from itself. -/
def isNaN (x : ν) : Bool := !(x == x)

/-- The greater of two values; a value that is no number yields to the other. -/
def max (x y : ν) : ν := if isNaN x then y else if isNaN y then x else if x < y then y else x

/-- The value moved into `[low, high]`; a value that is no number stays. -/
def clamp (low high x : ν) : ν := if x < low then low else if high < x then high else x

def abs (x : ν) : ν := if x < 0 then -x else x

def isWhole (x : ν) : Bool := x == ofInt (toInt x)

/-- Whether a value is a number and no infinity. -/
def isFinite (x : ν) : Bool := x - x == 0

/-- The integer part of a value, moved into `[low, high]`; zero for a value that is no number. -/
def toIntWithin (low high : Int) (x : ν) : Int :=
  if isNaN x then 0
  else if x ≤ ofInt low then low
  else if ofInt high ≤ x then high
  else toInt x

/-- The integer part of a value as a position; negative values and values that are no number give
zero. -/
def toIndex (x : ν) : Nat := (toIntWithin 0 Word.greatest x).toNat

def compare? (x y : ν) : Option Ordering :=
  if x < y then some .lt else if x == y then some .eq else if y < x then some .gt else none

/-- The text of a value where text is wanted, without exponents. -/
def toText (x : ν) : String := (toNumeral .away x).render .plain

end Scalar

end MapStyle
