import MapStyle.Value.Json

/-!
# Searching

The place of a needle in text or in an array, counted in characters or items, at or after a start.
In text a start that is negative or no number is the beginning; in an array a negative start counts
back from the end.
-/

set_option autoImplicit false

namespace MapStyle

open scoped Scalar

/-- The place of a word in a sequence of which the first element has place `i`. -/
def findWord {α : Type} [BEq α] (word : List α) : List α → Nat → Option Nat
  | [], i => if word.isEmpty then some i else none
  | a :: as, i => if word.isPrefixOf (a :: as) then some i else findWord word as (i + 1)

def utf8 (cs : List Char) : List UInt8 := cs.flatMap String.utf8EncodeChar

/-- The place of the first byte of a character; for a place beyond the last one, that of the end. -/
def byteOffset : List Char → Nat → Nat
  | [], _ => 0
  | _, 0 => 0
  | c :: cs, skip + 1 => c.utf8Size + byteOffset cs skip

/-- How many characters begin in some bytes. -/
def countCharacters (bytes : List UInt8) : Nat := bytes.countP fun b => decide b.IsUTF8FirstByte

variable {ν : Type} [Scalar ν]

/-- The text that a needle is searched as. -/
def searchText : Value ν → String
  | .null => "null"
  | v => v.text

/-- The place of a word in a text, at or after a start.  The bytes are searched, and the characters
before the match counted. -/
def indexInText (text word : String) (start : ν) : Option Nat :=
  let bytes := utf8 text.toList
  let offset := byteOffset text.toList (Scalar.toIndex (Scalar.max start 0))
  (findWord (utf8 word.toList) (bytes.drop offset) offset).map fun byte =>
    countCharacters (bytes.take byte)

def startIndex (length : Nat) (start : ν) : Nat :=
  if Scalar.isNaN start then 0
  else
    let start := Scalar.trunc start
    if start < 0 then Scalar.toIndex (Scalar.max (Scalar.ofInt length + start) 0)
    else Scalar.toIndex start

def indexInItems (items : List (Value ν)) (needle : Value ν) (start : ν) : Option Nat :=
  let skip := startIndex items.length start
  ((items.drop skip).findIdx? (· == needle)).map (· + skip)

end MapStyle
