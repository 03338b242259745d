import MapStyle.Number.Scalar
import MapStyle.Number.Shortest

/-!
# 64-bit floating-point scalars

The instance of `Scalar` that programs run with.  Numerals are read with correct rounding and
written with the fewest digits; remainders and integer parts are computed exactly on mantissas.
-/

set_option autoImplicit false

namespace MapStyle

def infinity : Float := 1.0 / 0.0

/-- The value of a magnitude, rounded to nearest; magnitudes beyond every finite value are infinite
and those below every value are zero. -/
def Decimal.toFloat (d : Decimal) : Float :=
  if d.digits = 0 then 0.0
  else
    let e := d.leadingExponent
    if 400 < e then infinity
    else if e < -400 then 0.0
    else Float.ofScientific d.digits (d.exponent < 0) d.exponent.natAbs

def Numeral.toFloat : Numeral → Float
  | .finite negative d => if negative then -d.toFloat else d.toFloat
  | .infinite negative => if negative then -infinity else infinity
  | .nan => 0.0 / 0.0

def signBit (x : Float) : Bool := x.toBits >>> 63 = 1

def Numeral.ofFloat (tie : Tie) (x : Float) : Numeral :=
  if x.isNaN then .nan
  else if x.isInf then .infinite (signBit x)
  else .finite (signBit x) ((Binary.ofBits x.toBits).shortest tie)

/-- The integer part of a finite value's magnitude. -/
def Binary.toNat (x : Binary) : Nat :=
  x.mantissa * Nat.pow 2 x.exponent.toNat / Nat.pow 2 (-x.exponent).toNat

/-- The integer part of a finite value, and zero for the others. -/
def floatToInt (x : Float) : Int :=
  if x.isNaN || x.isInf then 0
  else
    let n := (Binary.ofBits x.toBits).toNat
    if x < 0.0 then -(n : Int) else n

/-- The value without its fraction; a value whose last digit is not below one has none. -/
def floatTrunc (x : Float) : Float :=
  let b := Binary.ofBits x.toBits
  if 0 ≤ b.exponent then x
  else
    let magnitude := b.toNat.toUInt64.toFloat
    if signBit x then -magnitude else magnitude

/-- The remainder of a division truncated toward zero; it has the sign of the dividend. -/
def floatRem (x y : Float) : Float :=
  if x.isNaN || y.isNaN || x.isInf || y == 0.0 then 0.0 / 0.0
  else if x.abs < y.abs then x
  else
    let a := Binary.ofBits x.toBits
    let b := Binary.ofBits y.toBits
    let e := min a.exponent b.exponent
    let r := a.mantissa * Nat.pow 2 (a.exponent - e).toNat %
      (b.mantissa * Nat.pow 2 (b.exponent - e).toNat)
    let magnitude := (Float.ofNat r).scaleB e
    if signBit x then -magnitude else magnitude

instance : Scalar Float where
  decideLe := fun x y => inferInstanceAs (Decidable (x ≤ y))
  decideLt := fun x y => inferInstanceAs (Decidable (x < y))
  ofNumeral := Numeral.toFloat
  toNumeral := Numeral.ofFloat
  rem := floatRem
  trunc := floatTrunc
  round := Float.round
  toInt := floatToInt
  pow := Float.pow
  sqrt := Float.sqrt
  cbrt := Float.cbrt
  atan2 := Float.atan2
  sin := Float.sin
  cos := Float.cos

end MapStyle
