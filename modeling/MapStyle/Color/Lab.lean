import MapStyle.Color.Basic

/-!
# Perceptual coordinates

Lab coordinates are a lightness and two opponent axes, measured against the white point D50; HCL
coordinates are the same colors by hue angle, chroma and luminance.  A color without chroma has no
hue: its hue is no number.
-/

set_option autoImplicit false

namespace MapStyle

/-- Lightness, the two opponent axes, and alpha. -/
structure Lab (ν : Type) where
  l : ν
  a : ν
  b : ν
  alpha : ν

/-- Hue in degrees, chroma, luminance, and alpha. -/
structure Hcl (ν : Type) where
  h : ν
  c : ν
  l : ν
  alpha : ν

namespace Lab

variable {ν : Type} [Scalar ν]

open scoped Scalar

/-- The first tristimulus value of the white point. -/
def whiteX : ν := 0.96422

def whiteY : ν := 1.0

def whiteZ : ν := 0.82521

/-- Where the straight line of the lightness scale starts. -/
def offset : ν := 4 / 29

/-- Where the cube root gives way to a straight line. -/
def threshold : ν := 6 / 29

def slope : ν := 3 * threshold * threshold

def cubeThreshold : ν := threshold * threshold * threshold

def linear (x : ν) : ν :=
  if x ≤ 0.04045 then x / 12.92 else Scalar.pow ((x + 0.055) / 1.055) 2.4

/-- The component of a screen color with a linear intensity, moved into `[0, 1]`. -/
def companded (x : ν) : ν :=
  Scalar.clamp 0 1 (if x ≤ 0.00304 then 12.92 * x else 1.055 * Scalar.pow x (1 / 2.4) - 0.055)

def toScale (t : ν) : ν := if cubeThreshold < t then Scalar.cbrt t else t / slope + offset

def ofScale (t : ν) : ν := if threshold < t then t * t * t else slope * (t - offset)

end Lab

namespace Color

variable {ν : Type} [Scalar ν]

open scoped Scalar
open Lab

/-- The Lab coordinates of a color; equal components give no chroma at all. -/
def toLab (color : Color ν) : Lab ν :=
  let (r, g, b, alpha) := color.straight
  let r := linear r
  let g := linear g
  let b := linear b
  let y := toScale ((0.2225045 * r + 0.7168786 * g + 0.0606169 * b) / whiteY)
  let (x, z) :=
    if r == g && g == b then (y, y)
    else
      (toScale ((0.4360747 * r + 0.3850649 * g + 0.1430804 * b) / whiteX),
        toScale ((0.0139322 * r + 0.0971045 * g + 0.7141733 * b) / whiteZ))
  ⟨Scalar.max (116 * y - 16) 0, 500 * (x - y), 200 * (y - z), alpha⟩

/-- The color of Lab coordinates; an axis that is no number counts as zero. -/
def ofLab (lab : Lab ν) : Color ν :=
  let y := (lab.l + 16) / 116
  let x := if Scalar.isNaN lab.a then y else y + lab.a / 500
  let z := if Scalar.isNaN lab.b then y else y - lab.b / 200
  let y := whiteY * ofScale y
  let x := whiteX * ofScale x
  let z := whiteZ * ofScale z
  ofStraight
    (companded (3.1338561 * x - 1.6168667 * y - 0.4906146 * z))
    (companded (-0.9787684 * x + 1.9161415 * y + 0.0334540 * z))
    (companded (0.0719453 * x - 0.2289914 * y + 1.4052427 * z))
    lab.alpha

def degreesPerRadian : ν := 57.2957795130823208767981548141051703

def radiansPerDegree : ν := 3.14159265358979323846264338327950288 / 180

def wrapAngle (angle : ν) : ν :=
  let a := Scalar.rem angle 360
  if a < 0 then a + 360 else a

/-- The HCL coordinates of a color; a chroma that rounds to zero at four places has no hue. -/
def toHcl (color : Color ν) : Hcl ν :=
  let lab := color.toLab
  let c := Scalar.sqrt (lab.a * lab.a + lab.b * lab.b)
  let h :=
    if Scalar.round (c * 10000) == 0 then Scalar.nan
    else wrapAngle (Scalar.atan2 lab.b lab.a * degreesPerRadian)
  ⟨h, c, lab.l, lab.alpha⟩

/-- The color of HCL coordinates; a hue that is no number counts as zero. -/
def ofHcl (hcl : Hcl ν) : Color ν :=
  let h := if Scalar.isNaN hcl.h then 0 else hcl.h * radiansPerDegree
  ofLab ⟨hcl.l, Scalar.cos h * hcl.c, Scalar.sin h * hcl.c, hcl.alpha⟩

end Color

end MapStyle
