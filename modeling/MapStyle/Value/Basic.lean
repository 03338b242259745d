import MapStyle.Collator
import MapStyle.Color.Basic
import MapStyle.Ty

/-!
# Values

What an expression or a function yields: plain data as in a document, or one of the structured
values of map styling.  Every value has a type and a shape.
-/

set_option autoImplicit false

namespace MapStyle

/-- A run of rich text, with a scale and a font of its own if it has them. -/
structure Section (ν : Type) where
  text : String
  scale : Option ν
  font : Option String

structure Formatted (ν : Type) where
  sections : List (Section ν)

/-- A reference to an image, and whether it is known to be there. -/
structure ResolvedImage where
  name : String
  available : Bool
deriving DecidableEq, Repr, Inhabited

/-- Distances at the four sides. -/
structure Padding (ν : Type) where
  top : ν
  right : ν
  bottom : ν
  left : ν

namespace Formatted

variable {ν : Type}

def ofText (s : String) : Formatted ν := ⟨[⟨s, none, none⟩]⟩

def text (f : Formatted ν) : String := String.join (f.sections.map (·.text))

def isEmpty (f : Formatted ν) : Bool := f.sections.all fun s => s.text.isEmpty

end Formatted

def ResolvedImage.ofName (name : String) : ResolvedImage := ⟨name, false⟩

instance {ν : Type} [BEq ν] : BEq (Section ν) :=
  ⟨fun a b => a.text == b.text && a.scale == b.scale && a.font == b.font⟩

instance {ν : Type} [BEq ν] : BEq (Formatted ν) := ⟨fun a b => a.sections == b.sections⟩

instance {ν : Type} [BEq ν] : BEq (Padding ν) :=
  ⟨fun a b => a.top == b.top && a.right == b.right && a.bottom == b.bottom && a.left == b.left⟩

/-- The sides from the top, clockwise. -/
def Padding.toList {ν : Type} (p : Padding ν) : List ν := [p.top, p.right, p.bottom, p.left]

inductive Value (ν : Type) where
  | null
  | boolean (b : Bool)
  | number (x : ν)
  | string (s : String)
  | color (c : Color ν)
  | collator (c : Collator)
  | formatted (f : Formatted ν)
  | image (i : ResolvedImage)
  | padding (p : Padding ν)
  | numberArray (xs : List ν)
  | colorArray (cs : List (Color ν))
  | array (items : List (Value ν))
  | object (members : List (String × Value ν))
deriving Inhabited

namespace Value

variable {ν : Type}

mutual

/-- Equality of values.  Numbers compare as numbers, so a value that is no number equals nothing. -/
def beq [Scalar ν] : Value ν → Value ν → Bool
  | .null, .null => true
  | .boolean a, .boolean b => a == b
  | .number x, .number y => x == y
  | .string s, .string t => s == t
  | .color c, .color d => c == d
  | .collator c, .collator d => c == d
  | .formatted f, .formatted g => f == g
  | .image i, .image j => i == j
  | .padding p, .padding q => p == q
  | .numberArray xs, .numberArray ys => xs == ys
  | .colorArray cs, .colorArray ds => cs == ds
  | .array xs, .array ys => beqItems xs ys
  | .object ms, .object ns => beqMembers ms ns
  | _, _ => false
termination_by structural v => v

def beqItems [Scalar ν] : List (Value ν) → List (Value ν) → Bool
  | [], [] => true
  | x :: xs, y :: ys => beq x y && beqItems xs ys
  | _, _ => false
termination_by structural vs => vs

def beqMembers [Scalar ν] : List (String × Value ν) → List (String × Value ν) → Bool
  | [], [] => true
  | (k, x) :: xs, (l, y) :: ys => k == l && beq x y && beqMembers xs ys
  | _, _ => false
termination_by structural ms => ms

end

instance [Scalar ν] : BEq (Value ν) := ⟨beq⟩

def asNumber? : Value ν → Option ν
  | .number x => some x
  | _ => none

def asString? : Value ν → Option String
  | .string s => some s
  | _ => none

def asBool? : Value ν → Option Bool
  | .boolean b => some b
  | _ => none

def isNull : Value ν → Bool
  | .null => true
  | _ => false

/-- The shape of a value; everything structured that is not an array counts as an object. -/
def shape : Value ν → Shape
  | .null => .null
  | .boolean _ => .boolean
  | .number _ => .number
  | .string _ => .string
  | .array _ => .array
  | _ => .object

def isShapedAs (v : Value ν) (shapes : List Shape) : Bool := shapes.contains v.shape

/-- The type that all items have, or `value` if they differ or there are none. -/
def commonType : List Ty → Ty
  | [] => .value
  | t :: ts => if ts.all (· == t) then t else .value

mutual

/-- The type of a value; an array has its length and the common type of its items. -/
def ty : Value ν → Ty
  | .null => .null
  | .boolean _ => .boolean
  | .number _ => .number
  | .string _ => .string
  | .color _ => .color
  | .collator _ => .collator
  | .formatted _ => .formatted
  | .image _ => .resolvedImage
  | .padding _ => .padding
  | .numberArray _ => .numberArray
  | .colorArray _ => .colorArray
  | .array items => .array (commonType (itemTypes items)) (some items.length)
  | .object _ => .object
termination_by structural v => v

def itemTypes : List (Value ν) → List Ty
  | [] => []
  | v :: vs => v.ty :: itemTypes vs
termination_by structural vs => vs

end

end Value

end MapStyle
