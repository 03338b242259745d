/-!
# Parts of a locale tag

A locale tag is a sequence of parts between hyphens or underscores, in which letter case does not
matter.  The form of a part tells what it may stand for.
-/

set_option autoImplicit false

namespace MapStyle

abbrev LocalePart : Type := List Char

namespace LocalePart

def ofText (s : String) : List LocalePart :=
  (s.toList.map Char.toLower).splitOnP fun c => c = '-' || c = '_'

def byteLength (p : LocalePart) : Nat := p.foldl (fun n c => n + c.utf8Size) 0

def isAlpha (p : LocalePart) : Bool := p.all Char.isAlpha

def isAlphanum (p : LocalePart) : Bool := p.all Char.isAlphanum

/-- Whether a part has a length between two bounds and holds only letters and digits. -/
def isWord (low high : Nat) (p : LocalePart) : Bool :=
  low ≤ p.length && p.length ≤ high && isAlphanum p

/-- Whether a part has the form of a language: two or three letters. -/
def isLanguage (p : LocalePart) : Bool := isAlpha p && (p.length = 2 || p.length = 3)

/-- Whether a part has the form of a script: four letters. -/
def isScript (p : LocalePart) : Bool := isAlpha p && p.length = 4

/-- Whether a part has the form of a region: two letters or three digits. -/
def isRegion (p : LocalePart) : Bool :=
  (isAlpha p && p.length = 2) || (p.all Char.isDigit && p.length = 3)

/-- Whether a part has the form of a variant: five to eight letters or digits, or four of which the
first is a digit. -/
def isVariant (p : LocalePart) : Bool :=
  isWord 5 8 p || (p.length = 4 && isAlphanum p && p.head?.any Char.isDigit)

def isValue (p : LocalePart) : Bool := isWord 3 8 p

/-- Whether a part names a keyword: a letter or digit and a letter. -/
def isKeyword (p : LocalePart) : Bool :=
  p.length = 2 && isAlphanum p && p.getLast?.any Char.isAlpha

/-- Whether a part names a field of a transformation: a letter and a digit. -/
def isField (p : LocalePart) : Bool :=
  p.length = 2 && p.head?.any Char.isAlpha && p.getLast?.any Char.isDigit

/-- The part at the start of a list if it passes, and what follows it. -/
def optional (accepts : LocalePart → Bool) :
    List LocalePart → Option LocalePart × List LocalePart
  | p :: rest => if accepts p then (some p, rest) else (none, p :: rest)
  | [] => (none, [])

def capitalized : LocalePart → String
  | [] => ""
  | c :: cs => String.ofList (c.toUpper :: cs)

end LocalePart

end MapStyle
