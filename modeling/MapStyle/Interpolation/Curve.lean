import MapStyle.Number.Scalar

/-!
# Curves

A curve places an input between two stops: zero at the lower one, one at the upper one.  The
exponential curve of base one is the straight line.
-/

set_option autoImplicit false

namespace MapStyle

open scoped Scalar

inductive Curve (ν : Type) where
  | linear
  | exponential (base : ν)

variable {ν : Type} [Scalar ν]

/-- The place of an input on the exponential curve from `lower` to `upper`; zero where the two
coincide. -/
def exponentialFactor (base x lower upper : ν) : ν :=
  let difference := upper - lower
  let progress := x - lower
  if difference == 0 then 0
  else if base == 1 then progress / difference
  else (Scalar.pow base progress - 1) / (Scalar.pow base difference - 1)

namespace Curve

def base : Curve ν → ν
  | .linear => 1
  | .exponential b => b

def factor (c : Curve ν) (x lower upper : ν) : ν := exponentialFactor c.base x lower upper

end Curve

end MapStyle
