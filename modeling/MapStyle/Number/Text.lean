import MapStyle.Number.Numeral

/-!
# Reading numerals

`Numeral.ofText?` reads a whole text as a number: an optional sign, digits with at most one decimal
point and at least one digit, an optional exponent; or, in any letter case, `inf`, `infinity` or
`nan`.  Blanks, separators and other digits than `0` to `9` are refused.

The pieces, a run of digits and an exponent, are shared with the reader of documents.
-/

set_option autoImplicit false

namespace MapStyle

def digitsValue (ds : List Char) : Nat := ds.foldl (fun n c => 10 * n + (c.toNat - '0'.toNat)) 0

def spanDigits (cs : List Char) : List Char × List Char :=
  (cs.takeWhile Char.isDigit, cs.dropWhile Char.isDigit)

/-- The magnitude of digits before and after a point, times a power of ten. -/
def Decimal.ofParts (whole fraction : List Char) (exponent : Int) : Decimal :=
  ⟨digitsValue (whole ++ fraction), exponent - fraction.length⟩

def spanSign : List Char → Bool × List Char
  | '-' :: cs => (true, cs)
  | '+' :: cs => (false, cs)
  | cs => (false, cs)

/-- An exponent with its mark: the power, and what follows it.  Without a mark the power is zero; a
mark without digits is refused. -/
def exponent? : List Char → Option (Int × List Char)
  | [] => some (0, [])
  | c :: cs =>
    if c = 'e' || c = 'E' then
      let (negative, rest) := spanSign cs
      let (ds, rest) := spanDigits rest
      if ds.isEmpty then none
      else some (if negative then -(digitsValue ds : Int) else digitsValue ds, rest)
    else some (0, c :: cs)

/-- A fraction with its point: its digits, and what follows them. -/
def spanFraction : List Char → List Char × List Char
  | '.' :: cs => spanDigits cs
  | cs => ([], cs)

def Decimal.ofText? (cs : List Char) : Option Decimal :=
  let (whole, rest) := spanDigits cs
  let (fraction, rest) := spanFraction rest
  if whole.isEmpty && fraction.isEmpty then none
  else
    match exponent? rest with
    | some (e, []) => some (.ofParts whole fraction e)
    | _ => none

def Numeral.ofText? (text : String) : Option Numeral :=
  let (negative, body) := spanSign text.toList
  let word := String.ofList (body.map Char.toLower)
  if word = "inf" || word = "infinity" then some (.infinite negative)
  else if word = "nan" then some .nan
  else (Decimal.ofText? body).map (.finite negative)

end MapStyle
