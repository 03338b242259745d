import MapStyle.Number.Scalar

/-!
# Colors

A color holds its components multiplied by its alpha.  Straight components are those of the opaque
color; a fully transparent color has none and counts as black.
-/

set_option autoImplicit false

namespace MapStyle

/-- Red, green and blue times alpha, and alpha. -/
structure Color (ν : Type) where
  r : ν
  g : ν
  b : ν
  a : ν

namespace Color

variable {ν : Type} [Scalar ν]

open scoped Scalar

instance : BEq (Color ν) := ⟨fun x y => x.r == y.r && x.g == y.g && x.b == y.b && x.a == y.a⟩

def black : Color ν := ⟨0, 0, 0, 1⟩

def white : Color ν := ⟨1, 1, 1, 1⟩

def transparent : Color ν := ⟨0, 0, 0, 0⟩

def ofStraight (r g b a : ν) : Color ν := ⟨r * a, g * a, b * a, a⟩

def straight (c : Color ν) : ν × ν × ν × ν :=
  if c.a == 0 then (0, 0, 0, 0) else (c.r / c.a, c.g / c.a, c.b / c.a, c.a)

def ofBytes (r g b a : Nat) : Color ν :=
  let component (n : Nat) : ν := Scalar.ofInt n / 255
  ofStraight (component r) (component g) (component b) (component a)

end Color

end MapStyle
