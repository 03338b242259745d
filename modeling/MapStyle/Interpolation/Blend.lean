import MapStyle.Color.Lab
import MapStyle.Value.Basic

/-!
# Blending

Numbers blend along the straight line between them and structured values part by part.  Colors blend
in one of three spaces; by hue they take the shorter arc, and a color without hue takes that of the
other end.  Values that do not match hold the first.
-/

set_option autoImplicit false

namespace MapStyle

open scoped Scalar

variable {ν : Type} [Scalar ν]

def lerp (a b t : ν) : ν := a + (b - a) * t

inductive ColorSpace where
  | rgb
  | hcl
  | lab
deriving DecidableEq, Repr, Inhabited

/-- The hue a part `t` of the way along the shorter arc. -/
def lerpHue (h0 h1 t : ν) : ν :=
  if Scalar.isNaN h0 then h1
  else if Scalar.isNaN h1 then h0
  else
    let d := h1 - h0
    let d := if 180 < d then d - 360 else if d < -180 then d + 360 else d
    h0 + d * t

namespace ColorSpace

def ofName? : String → Option ColorSpace
  | "rgb" => some .rgb
  | "hcl" => some .hcl
  | "lab" => some .lab
  | _ => none

def name : ColorSpace → String
  | .rgb => "rgb"
  | .hcl => "hcl"
  | .lab => "lab"

/-- The color a part `t` of the way from one color to another. -/
def blend (space : ColorSpace) (x y : Color ν) (t : ν) : Color ν :=
  match space with
  | .rgb => ⟨lerp x.r y.r t, lerp x.g y.g t, lerp x.b y.b t, lerp x.a y.a t⟩
  | .lab =>
    let p := x.toLab
    let q := y.toLab
    .ofLab ⟨lerp p.l q.l t, lerp p.a q.a t, lerp p.b q.b t, lerp p.alpha q.alpha t⟩
  | .hcl =>
    let p := x.toHcl
    let q := y.toHcl
    .ofHcl ⟨lerpHue p.h q.h t, lerp p.c q.c t, lerp p.l q.l t, lerp p.alpha q.alpha t⟩

end ColorSpace

def Color.lerp (x y : Color ν) (t : ν) : Color ν := ColorSpace.rgb.blend x y t

def Padding.lerp (p q : Padding ν) (t : ν) : Padding ν :=
  ⟨MapStyle.lerp p.top q.top t, MapStyle.lerp p.right q.right t, MapStyle.lerp p.bottom q.bottom t,
    MapStyle.lerp p.left q.left t⟩

/-- Lists of one length blend entry by entry; of two lengths the first stays. -/
def lerpNumbers (xs ys : List ν) (t : ν) : List ν :=
  if xs.length = ys.length then List.zipWith (fun x y => lerp x y t) xs ys else xs

def lerpColors (xs ys : List (Color ν)) (t : ν) : List (Color ν) :=
  if xs.length = ys.length then List.zipWith (fun x y => x.lerp y t) xs ys else xs

/-- Entries blended as numbers, if all are numbers. -/
def lerpItems? (t : ν) : List (Value ν) → List (Value ν) → Option (List (Value ν))
  | .number x :: xs, .number y :: ys => (lerpItems? t xs ys).map (.number (lerp x y t) :: ·)
  | _ :: _, _ :: _ => none
  | _, _ => some []

namespace Value

/-- Blends two values of one type by their own straight line; other pairs have none. -/
def lerp? (a b : Value ν) (t : ν) : Option (Value ν) :=
  match a, b with
  | .number x, .number y => some (.number (lerp x y t))
  | .color x, .color y => some (.color (x.lerp y t))
  | .padding x, .padding y => some (.padding (x.lerp y t))
  | .numberArray xs, .numberArray ys => some (.numberArray (lerpNumbers xs ys t))
  | .colorArray xs, .colorArray ys => some (.colorArray (lerpColors xs ys t))
  | _, _ => none

/-- Blends two values, colors in the given space; what does not blend holds the first value. -/
def blend (space : ColorSpace) (a b : Value ν) (t : ν) : Value ν :=
  match a, b with
  | .number x, .number y => .number (lerp x y t)
  | .color x, .color y => .color (space.blend x y t)
  | .padding x, .padding y => .padding (x.lerp y t)
  | .numberArray xs, .numberArray ys => .numberArray (lerpNumbers xs ys t)
  | .colorArray xs, .colorArray ys =>
    if xs.length = ys.length then .colorArray (List.zipWith (fun x y => space.blend x y t) xs ys)
    else a
  | .array xs, .array ys =>
    if xs.length = ys.length then
      match lerpItems? t xs ys with
      | some items => .array items
      | none => a
    else a
  | _, _ => a

end Value

def Ty.isInterpolatable : Ty → Bool
  | .number | .color | .padding | .numberArray | .colorArray => true
  | .array item _ => item == .number
  | _ => false

end MapStyle
