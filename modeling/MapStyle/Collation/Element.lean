import MapStyle.Collator

/-!
# Collation elements

Text is ordered through a sequence of elements, each with a weight on three levels: the letter, its
accents, and its shape, to which the letter case belongs.  An element without a letter weight
belongs to the letter before it.  A sort key lists the weights of one level after another, and texts
compare as their keys do.
-/

set_option autoImplicit false

namespace MapStyle

/-- The letter case of an element that may stand for several characters. -/
inductive LetterCase where
  | lower
  | mixed
  | upper
deriving DecidableEq, Repr, Inhabited

structure CollationElement where
  primary : Nat
  secondary : Nat
  tertiary : Nat
  letterCase : LetterCase
deriving DecidableEq, Repr, Inhabited

def LetterCase.rank (upperFirst : Bool) : LetterCase → Nat
  | .lower => if upperFirst then 3 else 1
  | .mixed => 2
  | .upper => if upperFirst then 1 else 3

namespace CollationElement

def isLetter (e : CollationElement) : Bool := e.primary ≠ 0

def primaries (es : List CollationElement) : List Nat := (es.filter isLetter).map primary

def secondaries (es : List CollationElement) : List Nat := es.map secondary

def cases (upperFirst : Bool) (es : List CollationElement) : List Nat :=
  (es.filter isLetter).map fun e => e.letterCase.rank upperFirst

/-- The weights of the shapes; where capitals come first the letter case weighs more than the
rest. -/
def tertiaries (upperFirst : Bool) (es : List CollationElement) : List Nat :=
  es.map fun e => if upperFirst then 100 * e.letterCase.rank true + e.tertiary else e.tertiary

def sortKey (upperFirst : Bool) (s : Sensitivity) (es : List CollationElement) :
    List (List Nat) :=
  match s with
  | .base => [primaries es]
  | .accent => [primaries es, secondaries es]
  | .case => [primaries es, cases upperFirst es]
  | .variant => [primaries es, secondaries es, tertiaries upperFirst es]

end CollationElement

end MapStyle
