/-!
# Numerals

A numeral is a number as it is written: a sign and a decimal magnitude, or one of the words for an
infinity or for a value that is no number.  The magnitude is kept as digits times a power of ten, so
that reading and writing are exact and a number type only has to say which numeral stands for a
value and which value a numeral names.

`Layout` holds the decisions of a written form; `Numeral.render` applies them.
-/

set_option autoImplicit false

namespace MapStyle

/-- The magnitude `digits * 10 ^ exponent`. -/
structure Decimal where
  digits : Nat
  exponent : Int
deriving DecidableEq, Repr, Inhabited

namespace Decimal

def zero : Decimal := ⟨0, 0⟩

/-- The same magnitude with the trailing zeros of `digits` moved into the exponent; at most `fuel`
of them. -/
def strip : Nat → Decimal → Decimal
  | 0, d => d
  | fuel + 1, d =>
    if d.digits % 10 = 0 then strip fuel ⟨d.digits / 10, d.exponent + 1⟩ else d

/-- The digits of a magnitude, leading digit first; zero has the one digit `0`. -/
def digitChars (d : Decimal) : List Char := Nat.toDigits 10 d.digits

/-- The power of ten of the leading digit. -/
def leadingExponent (d : Decimal) : Int :=
  if d.digits = 0 then 0 else d.exponent + (d.digitChars.length : Int) - 1

end Decimal

inductive Numeral where
  | finite (negative : Bool) (magnitude : Decimal)
  | infinite (negative : Bool)
  | nan
deriving DecidableEq, Repr, Inhabited

def Numeral.ofInt (n : Int) : Numeral := .finite (n < 0) ⟨n.natAbs, 0⟩

/-- Which of two equally near shortest digit strings stands for a value. -/
inductive Tie where
  | toEven
  | away
deriving DecidableEq, Repr

structure Layout where
  /-- least power of ten of a leading digit that is still written without an exponent -/
  least? : Option Int
  /-- greatest power of ten of a leading digit that is still written without an exponent -/
  greatest? : Option Int
  /-- whether a number without an exponent always shows a decimal point -/
  pointAlways : Bool
  /-- the texts of positive infinity and of a value that is no number -/
  infinity : String
  nan : String

namespace Decimal

/-- Digits written with a decimal point where the exponent puts it. -/
def positional (pointAlways : Bool) (d : Decimal) : List Char :=
  let ds := d.digitChars
  if 0 ≤ d.exponent then
    ds ++ List.replicate d.exponent.toNat '0' ++ (if pointAlways then ['.', '0'] else [])
  else
    let places := (-d.exponent).toNat
    if places < ds.length then
      ds.take (ds.length - places) ++ '.' :: ds.drop (ds.length - places)
    else
      '0' :: '.' :: (List.replicate (places - ds.length) '0' ++ ds)

/-- One digit before the point, the others after it, and a signed exponent. -/
def scientific (d : Decimal) : List Char :=
  let e := d.leadingExponent
  let fraction := d.digitChars.drop 1
  d.digitChars.take 1 ++ (if fraction.isEmpty then [] else '.' :: fraction) ++
    'e' :: (if e < 0 then '-' else '+') :: Nat.toDigits 10 e.natAbs

/-- Whether a layout writes a magnitude without an exponent. -/
def isPositional (layout : Layout) (d : Decimal) : Bool :=
  let e := d.leadingExponent
  layout.least?.all (· ≤ e) && layout.greatest?.all (e ≤ ·)

end Decimal

def Numeral.render (layout : Layout) : Numeral → String
  | .finite negative d =>
    let body := if d.isPositional layout then d.positional layout.pointAlways else d.scientific
    String.ofList (if negative then '-' :: body else body)
  | .infinite negative => if negative then "-" ++ layout.infinity else layout.infinity
  | .nan => layout.nan

/-- Plain text never uses an exponent: `1`, `0.0000001`, `-0`, `inf`, `NaN`. -/
def Layout.plain : Layout := ⟨none, none, false, "inf", "NaN"⟩

/-- Raw numbers of a document are written without an exponent while the leading digit stands
between the fifth place after the point and the sixteenth before it, and then show a point. -/
def Layout.document : Layout := ⟨some (-5), some 15, true, "null", "null"⟩

end MapStyle
