import MapStyle.Color.Text
import MapStyle.Json.Writer
import MapStyle.Value.Basic

/-!
# Values as documents

`Value.ofJson` takes a document as plain data; `Value.toJson` writes any value as a document, where
structured values become text or arrays.  Paddings, number arrays and color arrays are read from a
single entry or an array of entries.
-/

set_option autoImplicit false

namespace MapStyle

open scoped Scalar

variable {ν : Type} [Scalar ν]

mutual

def Value.ofJson : Json ν → Value ν
  | .null => .null
  | .bool b => .boolean b
  | .int n => .number (Scalar.ofInt n)
  | .float x => .number x
  | .str s => .string s
  | .arr items => .array (Value.ofItems items)
  | .obj members => .object (Value.ofMembers members)
termination_by structural j => j

def Value.ofItems : List (Json ν) → List (Value ν)
  | [] => []
  | j :: rest => Value.ofJson j :: Value.ofItems rest
termination_by structural items => items

def Value.ofMembers : List (String × Json ν) → List (String × Value ν)
  | [] => []
  | (k, j) :: rest => (k, Value.ofJson j) :: Value.ofMembers rest
termination_by structural ms => ms

end

/-- The bound below which every whole number has a neighbour one apart, `2 ^ 53`. -/
def exactWholeLimit : Int := 9007199254740992

/-- A number as a document: whole numbers nearer to zero than the limit as integers, other finite
ones as they are, and null for the rest. -/
def Json.ofNumber (x : ν) : Json ν :=
  if Scalar.isWhole x && Scalar.abs x < Scalar.ofInt exactWholeLimit then .int (Scalar.toInt x)
  else
    match Scalar.toNumeral .toEven x with
    | .finite _ _ => .float x
    | _ => .null

namespace Value

mutual

def toJson : Value ν → Json ν
  | .null => .null
  | .boolean b => .bool b
  | .number x => .ofNumber x
  | .string s => .str s
  | .color c => .str c.text
  | .collator c =>
    .obj [("locale", c.locale.elim .null .str), ("sensitivity", .str c.sensitivity.name)]
  | .formatted f => .str f.text
  | .image i => .str i.name
  | .padding p => .arr (p.toList.map .ofNumber)
  | .numberArray xs => .arr (xs.map .ofNumber)
  | .colorArray cs => .arr (cs.map fun c => .str c.text)
  | .array items => .arr (toItems items)
  | .object members => .obj (toMembers members)
termination_by structural v => v

def toItems : List (Value ν) → List (Json ν)
  | [] => []
  | v :: rest => v.toJson :: toItems rest
termination_by structural vs => vs

def toMembers : List (String × Value ν) → List (String × Json ν)
  | [] => []
  | (k, v) :: rest => (k, v.toJson) :: toMembers rest
termination_by structural ms => ms

end

/-- A value as text: plain data without quotes, and the document of what has no text of its own. -/
def text : Value ν → String
  | .null => ""
  | .boolean b => if b then "true" else "false"
  | .number x => Scalar.toText x
  | .string s => s
  | .color c => c.text
  | .formatted f => f.text
  | .image i => i.name
  | v => v.toJson.render

end Value

/-- Every entry read by `read?`, if all can be. -/
def readAll? {α β : Type} (read? : α → Option β) : List α → Option (List β)
  | [] => some []
  | a :: rest =>
    match read? a, readAll? read? rest with
    | some b, some bs => some (b :: bs)
    | _, _ => none

namespace Padding

/-- One to four distances: all sides; vertical and horizontal; top, horizontal and bottom; each
side. -/
def ofShorthand? : List ν → Option (Padding ν)
  | [all] => some ⟨all, all, all, all⟩
  | [v, h] => some ⟨v, h, v, h⟩
  | [t, h, b] => some ⟨t, h, b, h⟩
  | [t, r, b, l] => some ⟨t, r, b, l⟩
  | _ => none

def ofJson? (j : Json ν) : Option (Padding ν) :=
  match j.asNumber? with
  | some x => some ⟨x, x, x, x⟩
  | none =>
    match j.asItems? with
    | some items =>
      match readAll? Json.asNumber? items with
      | some xs => ofShorthand? xs
      | none => none
    | none => none

end Padding

def numbers? (j : Json ν) : Option (List ν) :=
  match j.asNumber? with
  | some x => some [x]
  | none =>
    match j.asItems? with
    | some items => readAll? Json.asNumber? items
    | none => none

def Color.ofJson? (j : Json ν) : Option (Color ν) :=
  match j.asString? with
  | some s => Color.ofText? s
  | none => none

def colors? (j : Json ν) : Option (List (Color ν)) :=
  match j.asString? with
  | some s => (Color.ofText? s).map ([·])
  | none =>
    match j.asItems? with
    | some items => readAll? Color.ofJson? items
    | none => none

end MapStyle
