/-!
# Types

Every compiled expression has a static type.  `value` stands above the types that a property value
may have; arrays carry an item type and perhaps a length.  `Ty.accepts` says where a type may stand
for another, and `Shape` is the coarser classification of values that text search and categorical
stops go by.
-/

set_option autoImplicit false

namespace MapStyle

inductive Ty where
  | null
  | number
  | string
  | boolean
  | color
  | object
  | value
  | error
  | collator
  | formatted
  | padding
  | numberArray
  | colorArray
  | resolvedImage
  | array (item : Ty) (length : Option Nat)
deriving DecidableEq, Repr, Inhabited

namespace Ty

def kind : Ty → String
  | null => "null"
  | number => "number"
  | string => "string"
  | boolean => "boolean"
  | color => "color"
  | object => "object"
  | value => "value"
  | error => "error"
  | collator => "collator"
  | formatted => "formatted"
  | padding => "padding"
  | numberArray => "numberArray"
  | colorArray => "colorArray"
  | resolvedImage => "resolvedImage"
  | array _ _ => "array"

/-- The name of a type: an array names its item type, unless that is `value` and the length is
open, and its length if it has one. -/
def name : Ty → String
  | array item (some n) => "array<" ++ item.name ++ ", " ++ toString n ++ ">"
  | array value none => "array"
  | array item none => "array<" ++ item.name ++ ">"
  | t => t.kind

/-- Whether `value` stands above a type that is neither `value` nor an array. -/
def isPlainMember : Ty → Bool
  | null | number | string | boolean | color | formatted | object | padding | numberArray
  | colorArray | resolvedImage => true
  | value | error | collator | array _ _ => false

/-- Whether an expression of the second type may stand where the first is expected.  An expression
that always fails may stand anywhere; an empty array may stand for an array of any items. -/
def accepts : Ty → Ty → Bool
  | _, error => true
  | array expected length, array item n =>
    ((n == some 0 && item == value) || expected.accepts item) && (length == none || length == n)
  | array _ _, _ => false
  | value, array _ _ => true
  | value, t => t == value || t.isPlainMember
  | expected, t => expected == t

/-- Whether a type is `value` or has the kind of one of the allowed ones. -/
def isAmong (t : Ty) (allowed : List Ty) : Bool :=
  t == value || allowed.any fun a => a.kind == t.kind

end Ty

/-- What a value is to code that knows only plain data. -/
inductive Shape where
  | null
  | boolean
  | number
  | string
  | array
  | object
deriving DecidableEq, Repr, Inhabited

def Shape.name : Shape → String
  | null => "null"
  | boolean => "boolean"
  | number => "number"
  | string => "string"
  | array => "array"
  | object => "object"

end MapStyle
