import MapStyle.Color.Basic
import MapStyle.Color.Named
import MapStyle.Number.Text
import MapStyle.Text.Blank

/-!
# Colors as text

A color is written as `#rgb`, `#rgba`, `#rrggbb` or `#rrggbbaa`, as `rgb(…)` or `hsl(…)` with or
without an alpha, or by name; letter case and outer blanks do not matter.  `Color.ofText?` reads
these forms and `Color.text` writes `rgba(…)` with straight components as bytes.
-/

set_option autoImplicit false

namespace MapStyle

def lowerHexDigit? (c : Char) : Option Nat :=
  if c.isDigit then some (c.toNat - '0'.toNat)
  else if 'a' ≤ c ∧ c ≤ 'f' then some (c.toNat - 'a'.toNat + 10)
  else none

def hexDigits? : List Char → Option (List Nat)
  | [] => some []
  | c :: cs =>
    match lowerHexDigit? c, hexDigits? cs with
    | some d, some ds => some (d :: ds)
    | _, _ => none

namespace Color

variable {ν : Type} [Scalar ν]

open scoped Scalar

/-- The color of hexadecimal digits: one or two for each component, alpha or none. -/
def ofHex? (cs : List Char) : Option (Color ν) :=
  match hexDigits? cs with
  | some [r, g, b] => some (ofBytes (17 * r) (17 * g) (17 * b) 255)
  | some [r, g, b, a] => some (ofBytes (17 * r) (17 * g) (17 * b) (17 * a))
  | some [r, r', g, g', b, b'] =>
    some (ofBytes (16 * r + r') (16 * g + g') (16 * b + b') 255)
  | some [r, r', g, g', b, b', a, a'] =>
    some (ofBytes (16 * r + r') (16 * g + g') (16 * b + b') (16 * a + a'))
  | _ => none

/-- The parts between commas, blanks and slashes, without empty ones. -/
def arguments (cs : List Char) : List (List Char) :=
  ((cs.splitOnP fun c => c = ',' || c = ' ' || c = '/').map trimBlanks).filter (!·.isEmpty)

def call? (cs : List Char) : Option (List Char × List (List Char)) :=
  if cs.contains '(' then
    (dropEnding? [')'] ((cs.dropWhile (· != '(')).drop 1)).map fun inner =>
      (trimBlanks (cs.takeWhile (· != '(')), arguments inner)
  else none

def number? (cs : List Char) : Option ν :=
  (Numeral.ofText? (String.ofList cs)).map Scalar.ofNumeral

def percent? (cs : List Char) : Option ν :=
  match dropEnding? ['%'] cs with
  | some body => (number? body).map (· / 100)
  | none => none

/-- A number, or a percentage of `whole`. -/
def numberOrPercent? (whole : ν) (cs : List Char) : Option ν :=
  match dropEnding? ['%'] cs with
  | some body => (number? body).map (· / 100 * whole)
  | none => number? cs

/-- A component of `rgb`, moved into range, as a fraction. -/
def channel? (cs : List Char) : Option ν :=
  (numberOrPercent? 255 cs).map fun v => Scalar.clamp 0 255 v / 255

/-- The alpha of a color: what is left after three arguments, opaque if nothing is. -/
def alpha? : List (List Char) → Option ν
  | [] => some 1
  | [cs] => (numberOrPercent? 1 cs).map (Scalar.clamp 0 1)
  | _ => none

def ofRgb? : List (List Char) → Option (Color ν)
  | r :: g :: b :: rest =>
    match channel? r, channel? g, channel? b, alpha? rest with
    | some r, some g, some b, some a => some (ofStraight r g b a)
    | _, _, _, _ => none
  | _ => none

/-- A component of a hue circle between two levels; `t` is the place on the circle, at most one
turn off. -/
def hueComponent (p q t : ν) : ν :=
  let t := if t < 0 then t + 1 else t
  let t := if 1 < t then t - 1 else t
  if t < 1 / 6 then p + (q - p) * 6 * t
  else if t < 1 / 2 then q
  else if t < 2 / 3 then p + (q - p) * (2 / 3 - t) * 6
  else p

def hslComponents (h s l : ν) : ν × ν × ν :=
  let h := Scalar.rem (Scalar.rem h 360 + 360) 360 / 360
  let s := Scalar.clamp 0 1 s
  let l := Scalar.clamp 0 1 l
  if s == 0 then (l, l, l)
  else
    let q := if l < 0.5 then l * (1 + s) else l + s - l * s
    let p := 2 * l - q
    (hueComponent p q (h + 1 / 3), hueComponent p q h, hueComponent p q (h - 1 / 3))

def hue? (cs : List Char) : Option ν := number? ((dropEnding? "deg".toList cs).getD cs)

def ofHsl? : List (List Char) → Option (Color ν)
  | h :: s :: l :: rest =>
    match hue? h, percent? s, percent? l, alpha? rest with
    | some h, some s, some l, some a =>
      let (r, g, b) := hslComponents h s l
      some (ofStraight r g b a)
    | _, _, _, _ => none
  | _ => none

def ofCall? (name : List Char) (args : List (List Char)) : Option (Color ν) :=
  match String.ofList name with
  | "rgb" => ofRgb? args
  | "rgba" => ofRgb? args
  | "hsl" => ofHsl? args
  | "hsla" => ofHsl? args
  | _ => none

def ofText? (text : String) : Option (Color ν) :=
  let cs := (trimBlanks text.toList).map Char.toLower
  if cs = "transparent".toList then some transparent
  else
    match cs with
    | '#' :: hex => ofHex? hex
    | _ =>
      match call? cs with
      | some (name, args) => ofCall? name args
      | none => (namedColor? (String.ofList cs)).map fun (r, g, b) => ofBytes r g b 255

/-- A straight component as a byte, saturating. -/
def byte (v : ν) : Int :=
  Scalar.toIntWithin Word.leastSigned Word.greatestSigned (Scalar.round (v * 255))

def text (c : Color ν) : String :=
  let (r, g, b, a) := c.straight
  "rgba(" ++ toString (byte r) ++ "," ++ toString (byte g) ++ "," ++ toString (byte b) ++ "," ++
    Scalar.toText a ++ ")"

end Color

end MapStyle
